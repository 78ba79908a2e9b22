import WideRow.Proofs.Coherence
import WideRow.Proofs.PoolSteps

/-!
# References under each key

Where every cached handle has references, a key is cached as long as the last of them is not given
back. Then no disposed handle is cached, and a reference is had in one round.
-/

namespace WideRow

theorem SessionCache.find?_remove_other {c : SessionCache} {key k : Params} (h : k ≠ key) :
    (c.remove key).find? k = c.find? k := by
  rw [find?_eq_lookup, find?_eq_lookup, entries_remove, lookup_filter (· != key),
    if_pos (by simpa using h)]

namespace Pool

variable {σ : Type}

/-- There is a reference for each of the keys, and only keys with references are cached. -/
structure Tallied (p : Pool σ) (keys : List Params) : Prop where
  cached (key : Params) : (∃ id, p.cache.find? key = some id) ↔ key ∈ keys
  counted {key : Params} {id : ClusterId} (hfind : p.cache.find? key = some id) :
    ∃ h, p.handle? id = some h ∧ h.key = key ∧ h.refs.toInt = keys.count key

section

variable {b : Backend σ} {p q : Pool σ} {keys : List Params} {key : Params} {id : ClusterId}

theorem Tallied.congr (hp : p.Tallied keys) (hcache : ∀ key, q.cache.find? key = p.cache.find? key)
    (hhandle : ∀ id, q.handle? id = p.handle? id) : q.Tallied keys := by
  refine ⟨fun key => ?_, fun {key id} hfind => ?_⟩
  · rw [hcache]
    exact hp.cached key
  · rw [hcache] at hfind
    rw [hhandle]
    exact hp.counted hfind

theorem Tallied.perm (hp : p.Tallied keys) {keys' : List Params} (h : keys.Perm keys') :
    p.Tallied keys' := by
  refine ⟨fun key => ?_, fun {key id} hfind => ?_⟩
  · rw [← h.mem_iff]
    exact hp.cached key
  · rw [← h.count_eq]
    exact hp.counted hfind

theorem Tallied.key_unique (hp : p.Tallied keys) {k : Params} (hk : p.cache.find? k = some id)
    (hkey : p.cache.find? key = some id) : k = key := by
  obtain ⟨h, hid, rfl, -⟩ := hp.counted hk
  obtain ⟨x, hx, rfl, -⟩ := hp.counted hkey
  rw [hid] at hx
  cases hx
  rfl

theorem Tallied.not_mem (hp : p.Tallied keys) (hmiss : p.cache.find? key = none) : key ∉ keys := by
  intro hmem
  obtain ⟨id, hfind⟩ := (hp.cached key).mpr hmem
  rw [hmiss] at hfind
  cases hfind

theorem Tallied.live (hp : p.Tallied keys) (hfind : p.cache.find? key = some id) :
    ∃ h, p.handle? id = some h ∧ h.isDisposed = false := by
  obtain ⟨h, hid, -, hrefs⟩ := hp.counted hfind
  refine ⟨h, hid, ?_⟩
  rw [Handle.not_isDisposed_iff, hrefs]
  exact Int.natCast_nonneg _

theorem Tallied.recount (hp : p.Tallied keys) {keys' : List Params} {x h : Handle}
    (hfind : p.cache.find? key = some id) (hid : p.handle? id = some x) (hkey : h.key = x.key)
    (hmem : key ∈ keys') (hrefs : h.refs.toInt = keys'.count key)
    (hothers : ∀ k, k ≠ key → keys'.count k = keys.count k) :
    (p.setHandle id h).Tallied keys' := by
  obtain ⟨y, hy, hykey, -⟩ := hp.counted hfind
  rw [hid] at hy
  cases hy
  refine ⟨fun k => ?_, fun {k i} hk => ?_⟩
  · by_cases hne : k = key
    · subst hne
      exact ⟨fun _ => hmem, fun _ => ⟨id, hfind⟩⟩
    · rw [← List.count_pos_iff, hothers k hne, List.count_pos_iff]
      exact hp.cached k
  · by_cases hne : k = key
    · subst hne
      cases hfind.symm.trans hk
      exact ⟨h, handle?_setHandle_self hid, hkey.trans hykey, hrefs⟩
    · have hother : i ≠ id := by
        rintro rfl
        exact hne (hp.key_unique hk hfind)
      rw [hothers k hne, handle?_setHandle_other p h hother]
      exact hp.counted hk

theorem Tallied.sweep (hp : p.Tallied keys) : p.sweep.Tallied keys := by
  refine ⟨fun key => ?_, fun {key id} hfind => ?_⟩
  · rw [cache_sweep]
    exact hp.cached key
  · rw [cache_sweep] at hfind
    rw [handle?_sweep_of_cached hfind]
    exact hp.counted hfind

/-! ## Taking a reference -/

/-- How a reference is had, or not, where no disposed handle is cached for the key. -/
inductive Obtains (b : Backend σ) (key : Params) (p : Pool σ) : Result ClusterId × Pool σ → Prop
  | shared {id : ClusterId} {h : Handle} (hfind : p.cache.find? key = some id)
      (hid : p.handle? id = some h) :
      Obtains b key p (.ok id, { p with cache := p.cache.hit }.setHandle id h.acquire.2)
  | built {config : SessionConfig} {backend : σ} (hmiss : p.cache.find? key = none)
      (hbuilt : (p.loadFresh b key).1 = .ok p.nextId) :
      Obtains b key p (.ok p.nextId,
        { p with
          backend := backend
          nextId := p.nextId + 1
          events := .connected p.nextId :: .built p.nextId :: p.events
          handles := (p.nextId, Handle.fresh key config) :: p.handles
          cache := p.cache.store key p.nextId }.setHandle p.nextId
            (Handle.fresh key config).acquire.2)
  | failed {e : ClientError} {q : Pool σ} (hmiss : p.cache.find? key = none)
      (hfailed : (p.loadFresh b key).1 = .error e)
      (hcache : q.cache = p.cache) (hhandles : q.handles = p.handles) (hnamed : q.named = p.named)
      (hconnections : q.connections = p.connections) :
      Obtains b key p (.error e, q)

theorem acquireHandle_fresh {config : SessionConfig}
    (hhandles : q.handles = (id, Handle.fresh key config) :: p.handles) :
    q.acquireHandle id = (true, q.setHandle id (Handle.fresh key config).acquire.2) := by
  have hid : q.handle? id = some (Handle.fresh key config) := by
    rw [handle?, hhandles, lookup_cons_self]
  exact acquireHandle_some hid

theorem Tallied.obtains (hp : p.Tallied keys) (b : Backend σ) (key : Params) :
    Obtains b key p (p.acquire b key) := by
  cases hfind : p.cache.find? key with
  | some id =>
    obtain ⟨h, hid, hlive⟩ := hp.live hfind
    rw [(acquire_shared hfind hid hlive).1]
    exact .shared hfind hid
  | none =>
    have hbuilds := builds_loadFresh b key p
    have hload := load_miss (b := b) hfind
    generalize hfresh : p.loadFresh b key = outcome at hbuilds hload
    have hanswer := congrArg Prod.fst hfresh
    cases hbuilds with
    | invalid =>
      rw [(acquire_failed hload).1]
      exact .failed hfind hanswer rfl rfl rfl rfl
    | unbuilt =>
      rw [(acquire_failed hload).1]
      exact .failed hfind hanswer rfl rfl rfl rfl
    | unconnected =>
      rw [(acquire_failed hload).1]
      exact .failed hfind hanswer rfl rfl rfl rfl
    | connected =>
      rw [(acquire_taken hload (acquireHandle_fresh rfl)).1]
      exact .built hfind hanswer

theorem Obtains.holders {outcome : Result ClusterId × Pool σ} (h : Obtains b key p outcome) :
    outcome.2.named = p.named ∧ outcome.2.connections = p.connections := by
  cases h with
  | shared => exact ⟨rfl, rfl⟩
  | built => exact ⟨rfl, rfl⟩
  | failed _ _ _ _ hnamed hconnections => exact ⟨hnamed, hconnections⟩

theorem Tallied.store (hp : p.Tallied keys) (hmiss : p.cache.find? key = none)
    (hnew : p.handle? id = none) {h : Handle} (hkey : h.key = key) (hrefs : h.refs.toInt = 1)
    (hcache : q.cache = p.cache.store key id) (hself : q.handle? id = some h)
    (hothers : ∀ i, i ≠ id → q.handle? i = p.handle? i) : q.Tallied (key :: keys) := by
  have hnone := List.count_eq_zero.mpr (hp.not_mem hmiss)
  refine ⟨fun k => ?_, fun {k i} hk => ?_⟩
  · rw [hcache, List.mem_cons, ← hp.cached k]
    by_cases hne : k = key
    · subst hne
      exact ⟨fun _ => .inl rfl, fun _ => ⟨id, p.cache.find?_store_self k id⟩⟩
    · rw [SessionCache.find?_store_other hne]
      simp [hne]
  · rw [hcache] at hk
    by_cases hne : k = key
    · subst hne
      cases (p.cache.find?_store_self k id).symm.trans hk
      refine ⟨h, hself, hkey, ?_⟩
      rw [List.count_cons_self, hnone, hrefs]
      rfl
    · rw [SessionCache.find?_store_other hne] at hk
      obtain ⟨x, hx, hxkey, hxrefs⟩ := hp.counted hk
      have hother : i ≠ id := by
        rintro rfl
        rw [hnew] at hx
        cases hx
      rw [List.count_cons_of_ne (Ne.symm hne)]
      exact ⟨x, (hothers i hother).trans hx, hxkey, hxrefs⟩

theorem Tallied.acquire (hp : p.Tallied keys) (hroom : p.Room) (hnew : p.handle? p.nextId = none)
    (h : p.acquire b key = (.ok id, q)) :
    q.Tallied (key :: keys) ∧ q.cache.find? key = some id ∧
      ∀ k ∈ keys, q.cache.find? k = p.cache.find? k := by
  -- A reference more under a key, of which the handle is cached.
  have hobtains := hp.obtains b key
  rw [h] at hobtains
  cases hobtains with
  | @shared _ x hfind hid =>
    obtain ⟨y, hy, -, hrefs⟩ := hp.counted hfind
    rw [hid] at hy
    cases hy
    have hacquire := Handle.acquire_live (h := x) (by omega) (hroom id x hid)
    have hhit : { p with cache := p.cache.hit }.Tallied keys :=
      hp.congr (fun _ => rfl) (fun _ => rfl)
    refine ⟨hhit.recount hfind hid x.key_acquire List.mem_cons_self ?_ ?_, hfind, fun _ _ => rfl⟩
    · rw [hacquire.2, hrefs, List.count_cons_self]
      rfl
    · intro k hne
      exact List.count_cons_of_ne (Ne.symm hne)
  | @built config backend hmiss =>
    refine ⟨hp.store (h := (Handle.fresh key config).acquire.2) hmiss hnew rfl rfl rfl ?_ ?_,
      p.cache.find?_store_self key p.nextId, ?_⟩
    · exact handle?_setHandle_self (lookup_cons_self _)
    · intro i hne
      rw [handle?_setHandle_other _ _ hne]
      exact lookup_cons_other hne _
    · rintro k hk
      have hne : k ≠ key := by
        rintro rfl
        exact hp.not_mem hmiss hk
      exact SessionCache.find?_store_other hne _

/-! ## Giving a reference back -/

theorem holders_releaseHandle (p : Pool σ) (id : ClusterId) :
    (p.releaseHandle id).2.named = p.named ∧
      (p.releaseHandle id).2.connections = p.connections := by
  unfold releaseHandle
  split
  · simp only
    split <;> exact ⟨rfl, rfl⟩
  · exact ⟨rfl, rfl⟩

theorem Tallied.release (hp : p.Tallied (key :: keys)) (hfind : p.cache.find? key = some id) :
    (p.releaseHandle id).2.Tallied keys ∧
      (∀ k ∈ keys, (p.releaseHandle id).2.cache.find? k = p.cache.find? k) ∧
      ((p.releaseHandle id).1 = true ↔ key ∉ keys) := by
  obtain ⟨x, hid, rfl, hrefs⟩ := hp.counted hfind
  rw [List.count_cons_self] at hrefs
  by_cases hmem : x.key ∈ keys
  · have hpos := List.count_pos_iff.mpr hmem
    obtain ⟨hkept, hcount⟩ := Handle.release_more (h := x) (by omega)
    rw [releaseHandle_kept hid hkept]
    refine ⟨hp.recount hfind hid x.key_release hmem (by omega) ?_, fun _ _ => rfl, by simp [hmem]⟩
    intro k hne
    exact (List.count_cons_of_ne (Ne.symm hne)).symm
  · have hnone := List.count_eq_zero.mpr hmem
    have hlast := Handle.release_last (h := x) (by omega)
    rw [releaseHandle_last hid (by rw [hlast]), SessionCache.evict_of_find? hfind]
    have hothers (k : Params) (hne : k ≠ x.key) :
        (p.cache.remove x.key).find? k = p.cache.find? k :=
      SessionCache.find?_remove_other hne
    refine ⟨⟨fun k => ?_, fun {k i} hk => ?_⟩, fun k hk => hothers k ?_, by simp [hmem]⟩
    · by_cases hne : k = x.key
      · subst hne
        simp [SessionCache.find?_remove, hmem]
      · simp only [hothers k hne]
        rw [hp.cached k, List.mem_cons, or_iff_right hne]
    · have hne : k ≠ x.key := by
        rintro rfl
        simp [SessionCache.find?_remove] at hk
      simp only [hothers k hne] at hk
      obtain ⟨y, hy, hykey, hyrefs⟩ := hp.counted hk
      have hother : i ≠ id := by
        rintro rfl
        exact hne (hp.key_unique hk hfind)
      rw [List.count_cons_of_ne (Ne.symm hne)] at hyrefs
      exact ⟨y, (handle?_setHandle_other p _ hother).trans hy, hykey, hyrefs⟩
    · rintro rfl
      exact hmem hk

end

end Pool

end WideRow
