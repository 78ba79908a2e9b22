import WideRow.Proofs.FailedOpening
import WideRow.Proofs.Roster

/-!
# Each handle and its own entry

A handle that was replaced in the cache goes on under the same parameters as the one that replaced
it. Whoever gives a handle up removes its entry only if the entry is still that of this very handle,
so the late end of an old handle leaves the new one cached.
-/

namespace WideRow

/-! ## One entry taken out -/

namespace SessionCache

variable {c : SessionCache} {key k : Params} {id i : ClusterId}

theorem find?_evict_iff (hi : i ≠ id) : (c.evict key id).find? k = some i ↔ c.find? k = some i := by
  by_cases h : c.find? key = some id
  · rw [evict_of_find? h]
    by_cases hk : k = key
    · subst hk
      rw [find?_remove, h]
      simp [hi.symm]
    · rw [find?_remove_other hk]
  · rw [evict_of_find?_ne h]

theorem Balanced.filter_evict (hc : c.Balanced) :
    (c.evict key id).entries.filter (·.2 != id) = c.entries.filter (·.2 != id) := by
  by_cases h : c.find? key = some id
  · rw [evict_of_find? h, entries_remove, List.filter_filter]
    apply List.filter_congr
    rintro ⟨k, i⟩ hmem
    by_cases hk : k = key
    · -- The key has one entry, which is that of the handle itself.
      subst hk
      have hsame := (hc.find?_of_mem hmem).symm.trans h
      simp_all
    · simp [hk]
  · rw [evict_of_find?_ne h]

theorem counters_evict (c : SessionCache) (key : Params) (id : ClusterId) :
    (c.evict key id).loads = c.loads ∧ (c.evict key id).hits = c.hits ∧
      (c.evict key id).evictions = c.evictions + if c.find? key = some id then 1 else 0 := by
  rw [evict_eq]
  split <;> simp [remove]

theorem evicts_iff (c : SessionCache) (key : Params) (id : ClusterId) :
    (c.contains key = true ∧ (c.evict key id).contains key = false) ↔ c.find? key = some id := by
  by_cases h : c.find? key = some id
  · rw [evict_of_find? h]
    simp [SlotTable.contains, h, find?_remove]
  · rw [evict_of_find?_ne h]
    simp [h]

end SessionCache

namespace Pool

variable {σ : Type} {b : Backend σ} {p q : Pool σ} {id : ClusterId} {disposed : Bool}

/-! ## Giving a handle up -/

/-- The ways to give a handle up, whether the handle is disposed by it, and the pool that it leaves:
a release, a connection that is closed, dropped or replaced, and a name that is taken away. What a
connection that is closed already gives up is nothing. -/
inductive GivesUp (p : Pool σ) (id : ClusterId) : Bool → Pool σ → Prop where
  | release : GivesUp p id (p.releaseHandle id).1 (p.releaseHandle id).2.sweep
  | close {name : String} (h : ∀ i, p.held? (.connection name) = some i → i = id) :
      GivesUp p id (p.closeConnection name).1 (p.closeConnection name).2
  | dropConnection {name : String} (h : ∀ i, p.held? (.connection name) = some i → i = id) :
      GivesUp p id (p.vacate name).1 (p.dropConnection name).2
  | replace {name : String} {c : Connection}
      (h : ∀ i, p.held? (.connection name) = some i → i = id) :
      GivesUp p id (p.vacate name).1 (p.nameConnection name c)
  | dropName {name : String} (h : p.held? (.name name) = some id) :
      GivesUp p id false (p.dropName name).2

/-- What giving a handle up does to the cache: nothing, or the removal of the entry of a handle that
was disposed. -/
inductive Removes (p : Pool σ) (id : ClusterId) : Bool → SessionCache → Prop where
  | nothing : Removes p id false p.cache
  | evict {x : Handle} (hid : p.handle? id = some x) : Removes p id true (p.cache.evict x.key id)

theorem removes_releaseHandle (p : Pool σ) (id : ClusterId) :
    Removes p id (p.releaseHandle id).1 (p.releaseHandle id).2.cache := by
  cases hid : p.handle? id with
  | none =>
    rw [releaseHandle_none hid]
    exact .nothing
  | some x =>
    cases hx : x.release.1 with
    | false =>
      rw [releaseHandle_kept hid hx]
      exact .nothing
    | true =>
      rw [releaseHandle_last hid hx]
      exact .evict hid

theorem removes_vacate {name : String} (h : ∀ i, p.held? (.connection name) = some i → i = id) :
    Removes p id (p.vacate name).1 (p.vacate name).2.cache := by
  cases hlookup : p.connections.lookup name with
  | none =>
    rw [vacate, hlookup]
    exact .nothing
  | some c =>
    rw [vacate_of_lookup hlookup, releaseConnection]
    cases hhandle : c.handle with
    | none => exact .nothing
    | some i =>
      have hheld : p.held? (.connection name) = some i := by
        rw [held?_connection, hlookup, Option.bind_some, hhandle]
      rw [h i hheld]
      exact removes_releaseHandle p id

theorem GivesUp.removes (h : GivesUp p id disposed q) : Removes p id disposed q.cache := by
  cases h with
  | release =>
    rw [cache_sweep]
    exact removes_releaseHandle p id
  | @close name h =>
    have hvacate := removes_vacate h
    cases hlookup : p.connections.lookup name with
    | none =>
      rw [closeConnection, hlookup]
      exact .nothing
    | some c =>
      rw [closeConnection_eq hlookup, cache_sweep]
      exact hvacate
  | @dropConnection name h =>
    have hvacate := removes_vacate h
    cases hlookup : p.connections.lookup name with
    | none =>
      rw [vacate, hlookup] at hvacate ⊢
      rw [Pool.dropConnection, hlookup]
      exact hvacate
    | some c =>
      rw [dropConnection_eq hlookup, cache_sweep]
      exact hvacate
  | @replace name c h =>
    rw [nameConnection_eq, cache_sweep]
    exact removes_vacate h
  | dropName h =>
    unfold Pool.dropName
    rw [cache_sweep]
    exact .nothing

/-! ## What is left -/

theorem Reached.kept {backend : σ} {fit : Pool σ → Prop} (h : Reached b backend fit p) :
    p.Coherent fun _ => True := by
  induction h with
  | start => exact coherent_start _
  | call _ _ call ih => exact ih.perform Handle.lasting_true (fun id => keeps_true _ id) b call
  | query _ c text ih => exact ih.query c text

/-- A cache in which only the entry of one handle may be gone, and is exactly if it was still there
when the handle was disposed. -/
structure TouchesOwnEntry (p : Pool σ) (id : ClusterId) (disposed : Bool) (cache : SessionCache) :
    Prop where
  /-- Every other handle is found as before, under the same parameters too. -/
  others : ∀ key i, i ≠ id → (cache.find? key = some i ↔ p.cache.find? key = some i)
  entries : cache.entries.filter (·.2 != id) = p.cache.entries.filter (·.2 != id)
  counters : cache.loads = p.cache.loads ∧ cache.hits = p.cache.hits
  kept : disposed = false → cache = p.cache
  removed : disposed = true → ∃ x, p.handle? id = some x ∧
    ((p.cache.contains x.key = true ∧ cache.contains x.key = false) ↔
      p.cache.find? x.key = some id) ∧
    cache.evictions = p.cache.evictions + (if p.cache.find? x.key = some id then 1 else 0) ∧
    ∀ key, cache.find? key ≠ some id

theorem Coherent.key_of_find? (hp : p.Coherent fun _ => True) {key : Params} {x : Handle}
    (hid : p.handle? id = some x) (hfind : p.cache.find? key = some id) : key = x.key := by
  obtain ⟨y, hy, hkey, -⟩ := hp.serves _ (SessionCache.mem_of_find? hfind)
  rw [hid] at hy
  cases hy
  exact hkey.symm

theorem Coherent.find?_evict_ne (hp : p.Coherent fun _ => True) {x : Handle}
    (hid : p.handle? id = some x) (key : Params) :
    (p.cache.evict x.key id).find? key ≠ some id := by
  intro hfind
  have hbefore : p.cache.find? key = some id :=
    hp.balanced.find?_of_mem (SessionCache.mem_evict (SessionCache.mem_of_find? hfind))
  have hkey := hp.key_of_find? hid hbefore
  subst hkey
  rw [SessionCache.evict_of_find? hbefore, SessionCache.find?_remove] at hfind
  cases hfind

theorem Removes.touchesOwnEntry (hp : p.Coherent fun _ => True) {cache : SessionCache}
    (h : Removes p id disposed cache) : TouchesOwnEntry p id disposed cache := by
  cases h with
  | nothing => exact ⟨fun _ _ _ => Iff.rfl, rfl, ⟨rfl, rfl⟩, fun _ => rfl, nofun⟩
  | @evict x hid =>
    obtain ⟨hloads, hhits, hevictions⟩ := SessionCache.counters_evict p.cache x.key id
    have hiff := SessionCache.evicts_iff p.cache x.key id
    exact ⟨fun _ _ hi => SessionCache.find?_evict_iff hi, hp.balanced.filter_evict,
      ⟨hloads, hhits⟩, nofun, fun _ => ⟨x, hid, hiff, hevictions, hp.find?_evict_ne hid⟩⟩

/-- Whatever calls came before: who gives up a handle leaves the entry of every other handle in the
cache, and takes its own out only if this disposes it and the cache still has it. One more eviction
is counted exactly then. -/
theorem gives_up_own_entry {b : Backend σ} {backend : σ} {fit : Pool σ → Prop} {p q : Pool σ}
    {id : ClusterId} {disposed : Bool} (hp : Reached b backend fit p)
    (h : GivesUp p id disposed q) : TouchesOwnEntry p id disposed q.cache :=
  h.removes.touchesOwnEntry hp.kept

/-- Two connections of the same parameters, the cache having been told to forget the session of the
first before the second was opened. The end of the first leaves the second cached, and the end of
the second does not. -/
theorem gives_up_own_entry_replaced :
    let b := Script.backend ⟨[], false⟩
    let key := Params.ofList [("host", "a")]
    let calls : List PoolCall :=
      [.connect "old" key .default, .invalidate key, .connect "new" key .default]
    let p := (run b [] calls).2
    let q := (p.closeConnection "old").2
    let r := (p.closeConnection "new").2
    Reached b [] (fun _ => True) p ∧
      (GivesUp p 0 true q ∧ TouchesOwnEntry p 0 true q.cache ∧ q.cache = p.cache ∧
        q.cache.find? key = some 1) ∧
      (GivesUp p 1 true r ∧ TouchesOwnEntry p 1 true r.cache ∧ r.cache.find? key = none ∧
        r.cache.evictions = p.cache.evictions + 1) ∧
      p.cache.evictions = 1 := by
  intro b key calls p q r
  have hp : Reached b [] (fun _ => True) p := reached_run b [] calls
  have holds (name : String) (id : ClusterId) (hheld : p.held? (.connection name) = some id) :
      ∀ i, p.held? (.connection name) = some i → i = id := by
    intro i hi
    exact Option.some.inj (hi.symm.trans hheld)
  have hold : GivesUp p 0 true q := by
    have hclose := GivesUp.close (holds "old" 0 (by decide))
    rwa [show (p.closeConnection "old").1 = true by decide] at hclose
  have hnew : GivesUp p 1 true r := by
    have hclose := GivesUp.close (holds "new" 1 (by decide))
    rwa [show (p.closeConnection "new").1 = true by decide] at hclose
  exact ⟨hp, ⟨hold, gives_up_own_entry hp hold, by decide, by decide⟩,
    ⟨hnew, gives_up_own_entry hp hnew, by decide, by decide⟩, by decide⟩

end Pool

end WideRow
