import WideRow.Proofs.Overflow

/-!
# What the cache holds

An entry of the cache stands for an open session under its own parameters. The release that disposes
a handle takes its entry away, so no entry is left whose handle is disposed.
-/

namespace WideRow

/-! ## Entries -/

namespace SessionCache

/-- There is one entry for a key, and as many entries as were stored and not removed. -/
structure Balanced (c : SessionCache) : Prop where
  distinct : (c.entries.map Prod.fst).Nodup
  balance : c.loads = c.evictions + c.size

theorem Balanced.find?_of_mem {c : SessionCache} (hc : c.Balanced) {key : Params} {id : ClusterId}
    (h : (key, id) ∈ c.entries) : c.find? key = some id := by
  rw [find?_eq_lookup]
  exact lookup_of_mem hc.distinct h

theorem not_mem_of_find? {c : SessionCache} {key : Params} (h : c.find? key = none) :
    key ∉ c.entries.map Prod.fst := by
  rw [find?_eq_lookup, List.lookup_eq_none_iff] at h
  rw [List.mem_map]
  rintro ⟨entry, hentry, rfl⟩
  simpa using h entry hentry

theorem size_remove {l : List (Params × ClusterId)} {key : Params} {id : ClusterId}
    (hn : (l.map Prod.fst).Nodup) (h : (key, id) ∈ l) :
    (l.filter fun entry => entry.1 != key).length + 1 = l.length := by
  induction l with
  | nil => cases h
  | cons entry l ih =>
    rw [List.map_cons, List.nodup_cons] at hn
    rw [List.filter_cons]
    rcases List.mem_cons.mp h with rfl | h
    · -- The other entries have other keys, and stay.
      have hrest : l.filter (fun entry => entry.1 != key) = l := by
        rw [List.filter_eq_self]
        rintro entry hentry
        apply bne_iff_ne.mpr
        rintro rfl
        exact hn.1 (List.mem_map.mpr ⟨entry, hentry, rfl⟩)
      simp [hrest]
    · have hne : entry.1 ≠ key := by
        rintro rfl
        exact hn.1 (List.mem_map.mpr ⟨_, h, rfl⟩)
      simp [hne, ih hn.2 h]

theorem balanced_empty : empty.Balanced :=
  ⟨List.nodup_nil, rfl⟩

theorem Balanced.remove {c : SessionCache} (hc : c.Balanced) {key : Params} {id : ClusterId}
    (h : c.find? key = some id) : (c.remove key).Balanced := by
  have hsize := size_remove hc.distinct (mem_of_find? h)
  have hbalance := hc.balance
  have hentries := c.entries_remove key
  rw [SlotTable.size_eq_length_entries] at hbalance
  refine ⟨?_, ?_⟩
  · rw [hentries]
    exact hc.distinct.sublist (List.filter_sublist.map Prod.fst)
  · rw [SlotTable.size_eq_length_entries, hentries]
    simp only [SessionCache.remove]
    omega

theorem Balanced.evict {c : SessionCache} (hc : c.Balanced) (key : Params) (id : ClusterId) :
    (c.evict key id).Balanced := by
  rw [evict_eq]
  split
  · rename_i h
    exact hc.remove h
  · exact hc

theorem Balanced.invalidate {c : SessionCache} (hc : c.Balanced) (key : Params) :
    (c.invalidate key).2.Balanced := by
  rw [invalidate_eq, SlotTable.contains]
  cases h : c.find? key with
  | none => exact hc
  | some id => exact hc.remove h

theorem Balanced.store {c : SessionCache} (hc : c.Balanced) {key : Params}
    (h : c.find? key = none) (id : ClusterId) : (c.store key id).Balanced := by
  refine ⟨List.nodup_cons.mpr ⟨not_mem_of_find? h, hc.distinct⟩, ?_⟩
  have hbalance := hc.balance
  rw [SlotTable.size_eq_length_entries] at hbalance ⊢
  rw [entries_store, List.length_cons]
  change c.loads + 1 = c.evictions + _
  omega

end SessionCache

/-! ## Handles -/

namespace Handle

theorem key_release (h : Handle) : h.release.2.key = h.key := by
  unfold release
  split
  · rfl
  · split <;> rfl

/-- New handles have the property, and only the release that disposes a handle takes it away. -/
structure Lasting (good : Handle → Prop) : Prop where
  fresh : ∀ key config, good (Handle.fresh key config)
  first : ∀ key config, good (Handle.fresh key config).acquire.2
  release : ∀ h : Handle, good h → h.release.1 = false → good h.release.2

theorem lasting_true : Lasting fun _ => True :=
  ⟨fun _ _ => trivial, fun _ _ => trivial, fun _ _ _ => trivial⟩

theorem lasting_live : Lasting fun h => h.isDisposed = false := by
  refine ⟨fun _ _ => rfl, fun _ _ => rfl, ?_⟩
  rintro h hlive hkept
  rw [not_isDisposed_iff] at hlive ⊢
  rcases Int.lt_trichotomy 1 h.refs.toInt with hmore | hone | hless
  · rw [(release_more hmore).2]
    omega
  · rw [release_last hone.symm] at hkept
    cases hkept
  · rw [release_none (h.refs_le_zero_iff.mpr (by omega))]
    exact hlive

end Handle

namespace Pool

variable {σ : Type} {good : Handle → Prop}

/-! ## Coherence -/

/-- There is a handle with the number, it was made for the key, and it has the property. -/
def Serves (good : Handle → Prop) (p : Pool σ) (key : Params) (id : ClusterId) : Prop :=
  ∃ h, p.handle? id = some h ∧ h.key = key ∧ good h

structure Coherent (good : Handle → Prop) (p : Pool σ) : Prop where
  balanced : p.cache.Balanced
  numbered : ∀ id ∈ p.ids, id < p.nextId
  serves : ∀ entry ∈ p.cache.entries, p.Serves good entry.1 entry.2

/-- A reference taken leaves the property to a handle. -/
def Keeps (good : Handle → Prop) (p : Pool σ) (id : ClusterId) : Prop :=
  ∀ h, p.handle? id = some h → good h → good h.acquire.2

theorem keeps_true (p : Pool σ) (id : ClusterId) : p.Keeps (fun _ => True) id :=
  fun _ _ _ => trivial

theorem keeps_live {p : Pool σ} {id : ClusterId}
    (hfew : ∀ h, p.handle? id = some h → h.refs.toInt < 2147483647) :
    p.Keeps (fun h => h.isDisposed = false) id := by
  rintro h hid hlive
  rw [Handle.not_isDisposed_iff] at hlive ⊢
  rw [(Handle.acquire_live hlive (hfew h hid)).2]
  omega

theorem coherent_start (backend : σ) : (start backend).Coherent good :=
  ⟨SessionCache.balanced_empty, nofun, nofun⟩

theorem Coherent.not_there {p : Pool σ} (hp : p.Coherent good) : p.handle? p.nextId = none := by
  rw [handle?, List.lookup_eq_none_iff]
  rintro entry hentry
  have hlt : entry.1 < p.nextId := hp.numbered entry.1 (List.mem_map_of_mem hentry)
  simpa using Nat.ne_of_gt hlt

theorem Coherent.shrink {p q : Pool σ} (hp : p.Coherent good) (hbalanced : q.cache.Balanced)
    (hids : q.ids = p.ids) (hnext : q.nextId = p.nextId)
    (hentries : ∀ entry ∈ q.cache.entries, entry ∈ p.cache.entries)
    (hserves : ∀ entry ∈ q.cache.entries,
      p.Serves good entry.1 entry.2 → q.Serves good entry.1 entry.2) :
    q.Coherent good :=
  ⟨hbalanced, hids ▸ hnext ▸ hp.numbered,
    fun entry h => hserves entry h (hp.serves entry (hentries entry h))⟩

theorem Coherent.congr {p q : Pool σ} (hp : p.Coherent good) (hcache : q.cache = p.cache)
    (hhandles : q.handles = p.handles) (hnext : p.nextId ≤ q.nextId) : q.Coherent good := by
  refine ⟨hcache ▸ hp.balanced, ?_, ?_⟩
  · unfold ids
    rw [hhandles]
    exact fun id h => Nat.lt_of_lt_of_le (hp.numbered id h) hnext
  · unfold Serves handle?
    rw [hcache, hhandles]
    exact hp.serves

theorem Coherent.sweep {p : Pool σ} (hp : p.Coherent good) : p.sweep.Coherent good := by
  have hcache := cache_sweep p
  refine ⟨hcache ▸ hp.balanced, ?_, ?_⟩
  · rintro id hid
    rw [nextId_sweep]
    exact hp.numbered id (mem_ids_sweep.mp hid).1
  · rintro entry hentry
    rw [hcache] at hentry
    -- The cache itself holds the handles of its entries.
    have hheld : p.isHeld entry.2 = true := isHeld_iff.mpr (.inl ⟨entry, hentry, rfl⟩)
    unfold Serves
    rw [handle?_sweep, if_pos hheld]
    exact hp.serves entry hentry

theorem Serves.setHandle {p : Pool σ} {key : Params} {i id : ClusterId} {x h : Handle}
    (hi : p.Serves good key i) (hid : p.handle? id = some x) (hkey : h.key = x.key)
    (hgood : good x → good h) : (p.setHandle id h).Serves good key i := by
  obtain ⟨y, hy, hykey, hygood⟩ := hi
  by_cases hne : i = id
  · subst hne
    rw [hid] at hy
    cases hy
    exact ⟨h, handle?_setHandle_self hid, hkey.trans hykey, hgood hygood⟩
  · exact ⟨y, (handle?_setHandle_other p h hne).trans hy, hykey, hygood⟩

theorem Coherent.acquireHandle {p : Pool σ} (hp : p.Coherent good) {id : ClusterId}
    (hkeeps : p.Keeps good id) : (p.acquireHandle id).2.Coherent good := by
  cases hid : p.handle? id with
  | none =>
    rw [acquireHandle_none hid]
    exact hp
  | some x =>
    rw [acquireHandle_some hid]
    refine hp.shrink hp.balanced (ids_setHandle p id _) rfl (fun _ h => h) ?_
    rintro entry - hserves
    exact hserves.setHandle hid x.key_acquire (hkeeps x hid)

theorem Coherent.releaseHandle {p : Pool σ} (hp : p.Coherent good) (hgood : Handle.Lasting good)
    (id : ClusterId) : (p.releaseHandle id).2.Coherent good := by
  cases hid : p.handle? id with
  | none =>
    rw [releaseHandle_none hid]
    exact hp
  | some x =>
    cases hx : x.release.1 with
    | false =>
      rw [releaseHandle_kept hid hx]
      refine hp.shrink hp.balanced (ids_setHandle p id _) rfl (fun _ h => h) ?_
      rintro entry - hserves
      exact hserves.setHandle hid x.key_release fun h => hgood.release x h hx
    | true =>
      rw [releaseHandle_last hid hx]
      refine hp.shrink (hp.balanced.evict x.key id) (ids_setHandle p id _) rfl
        (fun _ h => SessionCache.mem_evict h) ?_
      rintro entry hentry ⟨y, hy, hykey, hygood⟩
      -- An entry with this handle is the one for its key, which is evicted.
      have hne : entry.2 ≠ id := by
        rintro rfl
        rw [hid] at hy
        cases hy
        have hfind : p.cache.find? x.key = some entry.2 :=
          hp.balanced.find?_of_mem (hykey ▸ SessionCache.mem_evict hentry)
        rw [SessionCache.evict_of_find? hfind] at hentry
        exact SessionCache.ne_of_mem_remove hentry hykey.symm
      exact ⟨y, (handle?_setHandle_other p _ hne).trans hy, hykey, hygood⟩

/-! ## Looking up -/

theorem Coherent.loadFresh {p : Pool σ} (hp : p.Coherent good) (hgood : Handle.Lasting good)
    (b : Backend σ) {key : Params} (hmiss : p.cache.find? key = none) :
    (p.loadFresh b key).2.Coherent good := by
  rcases loadFresh_cases b key p with
    ⟨error, -, hhandles, hcache, hnext⟩ | ⟨config, -, hhandles, hcache, hnext⟩
  · exact hp.congr hcache hhandles hnext
  · refine ⟨hcache ▸ hp.balanced.store hmiss p.nextId, ?_, ?_⟩
    · unfold ids
      rw [hhandles, hnext]
      rintro id hid
      rcases List.mem_cons.mp hid with rfl | hid
      · exact Nat.lt_succ_self _
      · exact Nat.lt_succ_of_lt (hp.numbered id hid)
    · unfold Serves handle?
      rw [hcache, hhandles]
      rintro entry hentry
      rcases List.mem_cons.mp hentry with rfl | hentry
      · exact ⟨_, lookup_cons_self _, rfl, hgood.fresh key config⟩
      · obtain ⟨h, hh, hkey, hgood⟩ := hp.serves entry hentry
        have hne : entry.2 ≠ p.nextId := by
          rintro heq
          rw [heq, hp.not_there] at hh
          cases hh
        exact ⟨h, (lookup_cons_other hne _).trans hh, hkey, hgood⟩

theorem Coherent.load {p : Pool σ} (hp : p.Coherent good) (hgood : Handle.Lasting good)
    (b : Backend σ) (key : Params) : (p.load b key).2.Coherent good := by
  rw [load_eq]
  split
  · exact ⟨⟨hp.balanced.distinct, hp.balanced.balance⟩, hp.numbered, hp.serves⟩
  · rename_i hmiss
    exact hp.loadFresh hgood b hmiss

theorem keeps_load {b : Backend σ} {key : Params} {p q : Pool σ} {id : ClusterId}
    (hgood : Handle.Lasting good) (hkeeps : ∀ i, p.cache.find? key = some i → p.Keeps good i)
    (hload : p.load b key = (.ok id, q)) : q.Keeps good id := by
  rintro h hid hbefore
  rcases handle_of_load hload hid with ⟨hfind, hid⟩ | ⟨config, rfl⟩
  · exact hkeeps id hfind h hid hbefore
  · exact hgood.first key config

theorem Coherent.evict {p : Pool σ} (hp : p.Coherent good) (key : Params) (id : ClusterId) :
    { p with cache := p.cache.evict key id }.Coherent good :=
  hp.shrink (hp.balanced.evict key id) rfl rfl (fun _ h => SessionCache.mem_evict h) fun _ _ h => h

theorem Rounds.coherent {b : Backend σ} {key : Params} {p : Pool σ} {lookups : List Lookup}
    {outcome : Result ClusterId × Pool σ} (h : Rounds b key p lookups outcome)
    (hp : p.Coherent good) (hgood : Handle.Lasting good)
    (hkeeps : ∀ i, p.cache.find? key = some i → p.Keeps good i) : outcome.2.Coherent good := by
  induction h with
  | @failed p q error hload =>
    have hloaded := hp.load hgood b key
    rw [hload] at hloaded
    exact hloaded
  | @taken p q r id hload htake =>
    have hloaded := hp.load hgood b key
    rw [hload] at hloaded
    have htaken := hloaded.acquireHandle (keeps_load hgood hkeeps hload)
    rw [htake] at htaken
    exact htaken
  | @again p q r id lookups outcome hload htake _ ih =>
    have hloaded := hp.load hgood b key
    rw [hload] at hloaded
    have hrefused := hloaded.acquireHandle (keeps_load hgood hkeeps hload)
    rw [htake] at hrefused
    apply ih (hrefused.evict key id)
    -- Nothing is cached for the key any more.
    rintro i hfind
    rw [find?_again hload htake] at hfind
    cases hfind

theorem Coherent.acquire {p : Pool σ} (hp : p.Coherent good) (hgood : Handle.Lasting good)
    (hkeeps : ∀ id, p.Keeps good id) (b : Backend σ) (key : Params) :
    (p.acquire b key).2.Coherent good :=
  (rounds_acquire b key p).coherent hp hgood fun id _ => hkeeps id

/-! ## Each call -/

theorem Coherent.nameHandle {p : Pool σ} (hp : p.Coherent good) (name : String) (id : ClusterId) :
    (p.nameHandle name id).Coherent good :=
  Coherent.sweep (hp.congr rfl rfl (Nat.le_refl _))

theorem Coherent.loadAs {p : Pool σ} (hp : p.Coherent good) (hgood : Handle.Lasting good)
    (b : Backend σ) (name : String) (key : Params) : (p.loadAs b name key).2.Coherent good := by
  have hload := hp.load hgood b key
  unfold Pool.loadAs
  split
  · rename_i heq
    rw [heq] at hload
    exact hload.sweep
  · rename_i heq
    rw [heq] at hload
    exact hload.nameHandle name _

theorem Coherent.acquireAs {p : Pool σ} (hp : p.Coherent good) (hgood : Handle.Lasting good)
    (hkeeps : ∀ id, p.Keeps good id) (b : Backend σ) (name : String) (key : Params) :
    (p.acquireAs b name key).2.Coherent good := by
  have hacquire := hp.acquire hgood hkeeps b key
  unfold Pool.acquireAs
  split
  · rename_i heq
    rw [heq] at hacquire
    exact hacquire.sweep
  · rename_i heq
    rw [heq] at hacquire
    exact hacquire.nameHandle name _

theorem Coherent.invalidate {p : Pool σ} (hp : p.Coherent good) (key : Params) :
    (p.invalidate key).2.Coherent good := by
  apply Coherent.sweep
  exact hp.shrink (hp.balanced.invalidate key) rfl rfl
    (fun _ h => SessionCache.mem_invalidate h) fun _ _ h => h

theorem Coherent.releaseConnection {p : Pool σ} (hp : p.Coherent good)
    (hgood : Handle.Lasting good) (c : Connection) :
    (p.releaseConnection c).2.Coherent good := by
  unfold Pool.releaseConnection
  split
  · exact hp.releaseHandle hgood _
  · exact hp

theorem Coherent.rename {p : Pool σ} (hp : p.Coherent good) (named : List (String × ClusterId))
    (connections : List (String × Connection)) :
    { p with named := named, connections := connections }.sweep.Coherent good :=
  Coherent.sweep (hp.congr rfl rfl (Nat.le_refl _))

theorem Coherent.nameConnection {p : Pool σ} (hp : p.Coherent good) (hgood : Handle.Lasting good)
    (name : String) (c : Connection) : (p.nameConnection name c).Coherent good := by
  unfold Pool.nameConnection
  cases p.connections.lookup name with
  | none => exact hp.rename _ _
  | some replaced => exact (hp.releaseConnection hgood replaced).rename _ _

theorem Coherent.perform {p : Pool σ} (hp : p.Coherent good) (hgood : Handle.Lasting good)
    (hkeeps : ∀ id, p.Keeps good id) (b : Backend σ) (call : PoolCall) :
    (p.perform b call).2.Coherent good := by
  cases call with
  | load name key => exact hp.loadAs hgood b name key
  | acquire name key => exact hp.acquireAs hgood hkeeps b name key
  | invalidate key => exact hp.invalidate key
  | take holder =>
    simp only [Pool.perform]
    split
    · exact (hp.acquireHandle (hkeeps _)).sweep
    · exact hp
  | giveBack holder =>
    simp only [Pool.perform]
    split
    · exact (hp.releaseHandle hgood _).sweep
    · exact hp
  | share name holder =>
    simp only [Pool.perform]
    split
    · exact hp.nameHandle name _
    · exact hp
  | dropName name => exact hp.rename _ _
  | connect name key options =>
    have hacquire := hp.acquire hgood hkeeps b key
    simp only [Pool.perform, Pool.connect]
    cases heq : p.acquire b key with
    | mk answer q =>
      rw [heq] at hacquire
      cases answer with
      | error error => exact hacquire.sweep
      | ok id => exact hacquire.nameConnection hgood name _
  | close name =>
    simp only [Pool.perform, Pool.closeConnection]
    split
    · exact (hp.releaseConnection hgood _).rename _ _
    · exact hp
  | dropConnection name =>
    simp only [Pool.perform, Pool.dropConnection]
    split
    · exact (hp.releaseConnection hgood _).rename _ _
    · exact hp

/-! ## Runs -/

theorem coherent_run {b : Backend σ} {backend : σ} {calls : List PoolCall}
    (hgood : Handle.Lasting good)
    (hkeeps : ∀ before, before <+: calls → ∀ id, (run b backend before).2.Keeps good id) :
    (run b backend calls).2.Coherent good := by
  induction calls using List.reverseRecOn with
  | nil => exact coherent_start backend
  | append_singleton calls call ih =>
    have hbefore := ih fun before h => hkeeps before (h.trans (List.prefix_append calls [call]))
    rw [run_append_one]
    exact hbefore.perform hgood (hkeeps calls (List.prefix_append calls [call])) b call

theorem kept_run (b : Backend σ) (backend : σ) (calls : List PoolCall) :
    (run b backend calls).2.Coherent fun _ => True :=
  coherent_run Handle.lasting_true fun _ _ _ => keeps_true _ _

theorem Roomy.room {b : Backend σ} {backend : σ} {calls : List PoolCall}
    (h : Roomy b backend calls) : (run b backend calls).2.Room :=
  (sound_run h).room (h calls (List.prefix_refl calls))

theorem Roomy.before {b : Backend σ} {backend : σ} {calls before : List PoolCall}
    (h : Roomy b backend calls) (hbefore : before <+: calls) : Roomy b backend before :=
  fun first hfirst => h first (hfirst.trans hbefore)

theorem live_run {b : Backend σ} {backend : σ} {calls : List PoolCall}
    (h : Roomy b backend calls) :
    (run b backend calls).2.Coherent fun h => h.isDisposed = false :=
  coherent_run Handle.lasting_live fun _ hbefore id => keeps_live ((h.before hbefore).room id)

theorem Sound.marks_of_live {p : Pool σ} {history : List RefEvent} (hp : p.Sound history)
    {id : ClusterId} {h : Handle} (hid : p.handle? id = some h) (hlive : h.isDisposed = false) :
    Marks.of p.events id = ⟨1, 1, 0, 0⟩ := by
  have ha := hp.account id (hp.lt_of_handle hid)
  rw [hid] at ha
  rcases ha.of_some with ⟨-, -, -, hmarks, -⟩ | ⟨hm, -, -⟩
  · exact hmarks
  · rw [Handle.isDisposed_of_marked hm] at hlive
    cases hlive

/-! ## Acquiring -/

/-- How parameters are acquired. -/
structure Acquires (b : Backend σ) (key : Params) (p : Pool σ) : Prop where
  /-- The rounds come to an end, and to no other. -/
  ends : ∀ lookups outcome, Rounds b key p lookups outcome ↔
    lookups = p.acquireLookups b key ∧ outcome = p.acquire b key
  rounds : (p.acquireLookups b key).length ≤ 2
  evictions : (p.acquire b key).2.cache.evictions ≤ p.cache.evictions + 1
  builds : (p.acquireLookups b key).countP Lookup.missed ≤ 1
  cached : ∀ id q, p.acquire b key = (.ok id, q) →
    q.cache.find? key = some id ∧ ∃ h, q.handle? id = some h ∧ h.key = key
  shares : ∀ id, p.cache.find? key = some id → (∃ h, p.handle? id = some h ∧ h.isDisposed = false) →
    (p.acquire b key).1 = .ok id ∧ (p.acquireLookups b key).countP Lookup.missed = 0 ∧
      (p.acquire b key).2.events = p.events ∧ (p.acquire b key).2.backend = p.backend

/-- What is acquired is not disposed and has a reference. -/
def Refers (b : Backend σ) (key : Params) (p : Pool σ) : Prop :=
  ∀ id q, p.acquire b key = (.ok id, q) →
    ∃ h, q.handle? id = some h ∧ h.isDisposed = false ∧ 1 ≤ h.refs.toInt

theorem acquires_of_keyed {p : Pool σ} (b : Backend σ) {key : Params} (hkeyed : p.Keyed key) :
    p.Acquires b key := by
  have hrounds := rounds_acquire b key p
  obtain ⟨hlength, hmissed⟩ := few_lookups b key p
  refine ⟨?_, hlength, ?_, hmissed, ?_, ?_⟩
  · rintro lookups outcome
    constructor
    · exact fun h => h.unique hrounds
    · rintro ⟨rfl, rfl⟩
      exact hrounds
  · have := hrounds.evictions
    omega
  · rintro id q h
    obtain ⟨hfind, x, hx, hkey, -⟩ := hrounds.takes hkeyed h
    exact ⟨hfind, x, hx, hkey⟩
  · rintro id hfind ⟨h, hid, hlive⟩
    obtain ⟨houtcome, hlookups⟩ := acquire_shared (b := b) hfind hid hlive
    rw [houtcome, hlookups]
    simp [lookup, SlotTable.contains, hfind, setHandle]

theorem refers_of_spare {p : Pool σ} (b : Backend σ) {key : Params} (hkeyed : p.Keyed key)
    (hspare : p.Spare key) : p.Refers b key := by
  rintro id q h
  obtain ⟨-, x, hx, -, hrefs⟩ := (rounds_acquire b key p).takes hkeyed h
  exact ⟨x, hx, hrefs hspare⟩

theorem spare_of_refers {p : Pool σ} {b : Backend σ} {key : Params} (hrefers : p.Refers b key) :
    p.Spare key := by
  rintro id h hfind hid
  by_cases hroom : h.refs.toInt < 2147483647
  · exact hroom
  · -- The greatest count takes one more reference and wraps, so that no reference is left.
    have hgreatest := h.refs.toInt_lt
    have hfull : h.refs.toInt = 2147483647 := by omega
    have hlive : h.isDisposed = false := by
      rw [Handle.not_isDisposed_iff]
      omega
    obtain ⟨x, hx, -, hcounted⟩ :=
      hrefers _ _ (acquire_shared (b := b) hfind hid hlive).1
    have hthere : ({ p with cache := p.cache.hit }.setHandle id h.acquire.2).handle? id =
        some h.acquire.2 := handle?_setHandle_self hid
    rw [hthere, Option.some_inj] at hx
    have hwrapped := (Handle.acquire_greatest hfull).2
    rw [hx] at hwrapped
    omega

theorem refers_iff_spare {p : Pool σ} (b : Backend σ) {key : Params} (hkeyed : p.Keyed key) :
    p.Refers b key ↔ p.Spare key :=
  ⟨spare_of_refers, refers_of_spare b hkeyed⟩

theorem Coherent.keyed {p : Pool σ} (hp : p.Coherent good) (key : Params) : p.Keyed key := by
  rintro id h hfind hid -
  obtain ⟨x, hx, hkey, -⟩ := hp.serves _ (SessionCache.mem_of_find? hfind)
  rw [hid] at hx
  cases hx
  exact hkey

/-! ## A disposed handle in the cache -/

/-- A cache that shows a handle under a key, whatever was there. -/
def plant (key : Params) (id : ClusterId) (p : Pool σ) : Pool σ :=
  { p with
    cache := { (p.cache.remove key).store key id with
      loads := p.cache.loads
      evictions := p.cache.evictions } }

theorem of_plant {p : Pool σ} {key : Params} {stale id : ClusterId} {x h : Handle}
    (hid : p.handle? stale = some x) (hfind : (p.plant key stale).cache.find? key = some id)
    (hh : (p.plant key stale).handle? id = some h) : h = x := by
  have hplanted : (p.plant key stale).cache.find? key = some stale :=
    (p.cache.remove key).find?_store_self key stale
  rw [hplanted] at hfind
  cases hfind
  have hsame : some x = some h := hid.symm.trans hh
  cases hsame
  rfl

theorem keyed_plant {p : Pool σ} {stale : ClusterId} {x : Handle} (key : Params)
    (hid : p.handle? stale = some x) (hdisposed : x.isDisposed = true) :
    (p.plant key stale).Keyed key := by
  rintro id h hfind hh hlive
  rw [of_plant hid hfind hh, hdisposed] at hlive
  cases hlive

theorem spare_plant {p : Pool σ} {stale : ClusterId} {x : Handle} (key : Params)
    (hid : p.handle? stale = some x) (hdisposed : x.isDisposed = true) :
    (p.plant key stale).Spare key := by
  rintro id h hfind hh
  rw [of_plant hid hfind hh]
  rw [Handle.isDisposed_iff] at hdisposed
  omega

/-- Every slot of the cache is filled and stands for its own session, which is open as long as the
counts have room. The counters agree with what was stored, found and removed. Loading comes to an
end. Acquiring shares what is open and replaces what is disposed, with one removal and one build at
most; what it gives has a reference exactly if there was room for one. -/
theorem session_cache_coherent (b : Backend σ) (backend : σ) (calls : List PoolCall) :
    let p := (run b backend calls).2
    let c := p.cache
    (c.slots.map Prod.fst).Nodup ∧
      (∀ entry ∈ c.slots, entry.2.failed = false ∧
        ∃ id h, entry.2.handle = some id ∧ p.handle? id = some h ∧ h.key = entry.1 ∧
          (Roomy b backend calls →
            h.isDisposed = false ∧ Marks.of p.events id = ⟨1, 1, 0, 0⟩)) ∧
      c.loads = c.evictions + c.size ∧
      c.hits + c.loads = ((start backend).lookupsFrom b calls).countP Lookup.answered ∧
      c.size = c.slots.length ∧
      ∀ key, (∃! outcome, Loads b key c.toSlotTable p outcome) ∧ p.Acquires b key ∧
        (p.Refers b key ↔ p.Spare key) ∧ (Roomy b backend calls → p.Spare key) ∧
        ∀ stale x, p.handle? stale = some x → x.isDisposed = true →
          (p.plant key stale).Acquires b key ∧ (p.plant key stale).Refers b key := by
  intro p c
  have hkept : p.Coherent fun _ => True := kept_run b backend calls
  refine ⟨?distinct, ?slots, hkept.balanced.balance, ?served,
    SlotTable.size_eq_length_slots c.settled, fun key => ⟨?loads, acquires_of_keyed b (hkept.keyed key),
      refers_iff_spare b (hkept.keyed key), ?spare, ?planted⟩⟩
  case distinct =>
    rw [← SlotTable.keys_entries c.settled]
    exact hkept.balanced.distinct
  case slots =>
    rintro ⟨key, slot⟩ hslot
    obtain ⟨id, hfilled⟩ := Option.isSome_iff_exists.mp (c.settled.filled _ hslot)
    have hentry : (key, id) ∈ c.entries := SlotTable.mem_entries hslot hfilled
    obtain ⟨h, hid, hkey, -⟩ := hkept.serves _ hentry
    refine ⟨c.settled.unmarked _ hslot, id, h, hfilled, hid, hkey, ?_⟩
    intro hroomy
    obtain ⟨x, hx, -, hlive⟩ := (live_run hroomy).serves _ hentry
    rw [hid] at hx
    cases hx
    exact ⟨hlive, (sound_run hroomy).marks_of_live hid hlive⟩
  case served =>
    have hserved := served_foldl b (start backend) calls
    rw [← run_snd] at hserved
    exact hserved.trans (Nat.zero_add _)
  case loads => exact ⟨_, loads_load.mpr rfl, fun outcome h => loads_load.mp h⟩
  case spare => exact fun hroomy id h _ hid => hroomy.room id h hid
  case planted =>
    rintro stale x hid hdisposed
    have hkeyed := keyed_plant key hid hdisposed
    exact ⟨acquires_of_keyed b hkeyed, refers_of_spare b hkeyed (spare_plant key hid hdisposed)⟩

/-- A handle that is disposed and still has a name, shown in the cache again, and one that is
shared. -/
theorem session_cache_coherent_replaced :
    let b := Script.backend ⟨[], false⟩
    let first := Params.ofList [("host", "a")]
    let second := Params.ofList [("host", "b")]
    let calls : List PoolCall :=
      [.acquire "one" first, .giveBack (.name "one"), .acquire "two" second, .load "three" second]
    let p := (run b [] calls).2
    let planted := p.plant first 0
    Roomy b [] calls ∧ p.cache.hits + p.cache.loads = 3 ∧ p.cache.evictions = 1 ∧
      (∃ h, p.handle? 1 = some h ∧ h.key = second ∧ h.isDisposed = false ∧
        Marks.of p.events 1 = ⟨1, 1, 0, 0⟩) ∧
      (p.handle? 0).map Handle.isDisposed = some true ∧
      (planted.acquire b first).1.toOption = some 2 ∧
      planted.Acquires b first ∧ planted.Refers b first ∧
      (p.acquire b second).1.toOption = some 1 ∧ p.Acquires b second ∧ p.Refers b second := by
  intro b first second calls p planted
  have hroomy : Roomy b [] calls := roomy_of_length b [] (by decide)
  obtain ⟨-, hslots, -, -, -, hkeys⟩ := session_cache_coherent b [] calls
  obtain ⟨-, id, h, hfilled, hid, hkey, hlive⟩ := hslots (second, ⟨0, some 1, false⟩) (by decide)
  cases hfilled
  have hstale : (p.handle? 0).map Handle.isDisposed = some true := by decide
  obtain ⟨x, hx, hdisposed⟩ := Option.map_eq_some_iff.mp hstale
  obtain ⟨-, -, -, -, hplanted⟩ := hkeys first
  obtain ⟨-, hshared, hrefers, hspare, -⟩ := hkeys second
  obtain ⟨hreplaced, hreplacedRefers⟩ := hplanted 0 x hx hdisposed
  refine ⟨hroomy, by decide, by decide, ⟨h, hid, hkey, hlive hroomy⟩, hstale, ?_⟩
  exact ⟨by decide, hreplaced, hreplacedRefers, by decide, hshared,
    hrefers.mpr (hspare hroomy)⟩

/-- A handle that was loaded and has a name, with one reference more than the count can hold: it is
cached, its session is open, and it looks disposed. -/
theorem session_cache_coherent_overflow :
    let b := Script.backend ⟨[], false⟩
    let key := Params.ofList [("host", "a")]
    let calls : List PoolCall := .load "h" key :: List.replicate 2147483648 (.take (.name "h"))
    let p := (run b [] calls).2
    p.cache.entries = [(key, 0)] ∧ Marks.of p.events 0 = ⟨1, 1, 0, 0⟩ ∧
      ∃ h, p.handle? 0 = some h ∧ h.key = key ∧ h.isDisposed = true := by
  intro b key calls p
  obtain ⟨x, hid, hnone, hkey⟩ : ∃ x, ((start []).perform b (.load "h" key)).2.handle? 0 = some x ∧
      x.refs.toInt = 0 ∧ x.key = key := ⟨_, rfl, rfl, rfl⟩
  obtain ⟨y, htaken, hsame, hrefs⟩ := run_overflow (.name "h") rfl hid hnone
  have hp : p = ((start []).perform b (.load "h" key)).2.setHandle 0 y := htaken
  rw [hp]
  refine ⟨rfl, rfl, y, handle?_setHandle_self hid, hsame.trans hkey, ?_⟩
  rw [Handle.isDisposed_iff]
  omega

end Pool

end WideRow
