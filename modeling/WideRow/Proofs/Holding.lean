import WideRow.Proofs.Ledger

/-! # Who holds a handle -/

namespace WideRow

/-! ## Names -/

theorem mem_of_lookup_name {α : Type} {l : List (String × α)} {name : String} {a : α}
    (h : l.lookup name = some a) : ∃ entry ∈ l, entry.2 = a := by
  exact ⟨(name, a), mem_of_lookup h, rfl⟩

theorem mem_assign {α : Type} {l : List (String × α)} {name : String} {a : α} {entry : String × α}
    (h : entry ∈ Names.assign name a l) : entry = (name, a) ∨ entry ∈ l := by
  unfold Names.assign at h
  rcases List.mem_cons.mp h with h | h
  · exact .inl h
  · exact .inr (List.mem_filter.mp h).1

theorem SessionCache.mem_evict {c : SessionCache} {key : Params} {id : ClusterId}
    {entry : Params × ClusterId} (h : entry ∈ (c.evict key id).entries) : entry ∈ c.entries := by
  rw [evict_eq] at h
  split at h
  · exact mem_of_mem_remove h
  · exact h

theorem SessionCache.mem_invalidate {c : SessionCache} {key : Params}
    {entry : Params × ClusterId} (h : entry ∈ (c.invalidate key).2.entries) : entry ∈ c.entries := by
  rw [invalidate_eq] at h
  split at h
  · exact mem_of_mem_remove h
  · exact h

namespace Pool

variable {σ : Type}

/-! ## Holders -/

theorem isHeld_iff {p : Pool σ} {id : ClusterId} :
    p.isHeld id = true ↔ (∃ entry ∈ p.cache.entries, entry.2 = id) ∨
      (∃ entry ∈ p.named, entry.2 = id) ∨ ∃ entry ∈ p.connections, entry.2.handle = some id := by
  unfold isHeld
  simp only [Bool.or_eq_true, List.any_eq_true, beq_iff_eq, or_assoc]

def ids (p : Pool σ) : List ClusterId :=
  p.handles.map Prod.fst

/-- Every handle that is held is there. -/
def Tethered (p : Pool σ) : Prop :=
  ∀ id, p.isHeld id = true → id ∈ p.ids

theorem tethered_start (backend : σ) : (start backend).Tethered := by
  intro id h
  cases h

theorem Tethered.grow {p q : Pool σ} (hp : p.Tethered) (hids : ∀ id ∈ p.ids, id ∈ q.ids)
    (hheld : ∀ id, q.isHeld id = true → p.isHeld id = true ∨ id ∈ q.ids) : q.Tethered := by
  intro id h
  rcases hheld id h with h | h
  · exact hids id (hp id h)
  · exact h

theorem holders_closeAll (l : List (ClusterId × Handle)) (p : Pool σ) :
    let q := l.foldl (fun p entry => p.closeResources entry.1) p
    q.cache = p.cache ∧ q.named = p.named ∧ q.connections = p.connections := by
  induction l generalizing p with
  | nil => exact ⟨rfl, rfl, rfl⟩
  | cons entry l ih => exact ih (p.closeResources entry.1)

theorem cache_sweep (p : Pool σ) : p.sweep.cache = p.cache := (holders_closeAll p.abandoned p).1

theorem named_sweep (p : Pool σ) : p.sweep.named = p.named := (holders_closeAll p.abandoned p).2.1

theorem connections_sweep (p : Pool σ) : p.sweep.connections = p.connections :=
  (holders_closeAll p.abandoned p).2.2

theorem isHeld_sweep (p : Pool σ) (id : ClusterId) : p.sweep.isHeld id = p.isHeld id := by
  unfold isHeld
  rw [cache_sweep, named_sweep, connections_sweep]

theorem mem_ids_sweep {p : Pool σ} {id : ClusterId} :
    id ∈ p.sweep.ids ↔ id ∈ p.ids ∧ p.isHeld id = true := by
  unfold ids sweep
  simp only [List.mem_map, List.mem_filter]
  constructor
  · rintro ⟨entry, ⟨hmem, hheld⟩, rfl⟩
    exact ⟨⟨entry, hmem, rfl⟩, hheld⟩
  · rintro ⟨⟨entry, hmem, rfl⟩, hheld⟩
    exact ⟨entry, ⟨hmem, hheld⟩, rfl⟩

theorem handle?_sweep_of_cached {p : Pool σ} {key : Params} {id : ClusterId}
    (hfind : p.cache.find? key = some id) : p.sweep.handle? id = p.handle? id := by
  have hheld : p.isHeld id = true := isHeld_iff.mpr (.inl ⟨_, SessionCache.mem_of_find? hfind, rfl⟩)
  rw [handle?_sweep, if_pos hheld]

theorem Tethered.sweep {p : Pool σ} (hp : p.Tethered) : p.sweep.Tethered := by
  intro id h
  rw [isHeld_sweep] at h
  exact mem_ids_sweep.mpr ⟨hp id h, h⟩

theorem ids_setHandle (p : Pool σ) (id : ClusterId) (h : Handle) : (p.setHandle id h).ids = p.ids :=
  keys_replace h

theorem ids_acquireHandle (p : Pool σ) (id : ClusterId) : (p.acquireHandle id).2.ids = p.ids := by
  unfold acquireHandle
  split
  · exact ids_setHandle p id _
  · rfl

theorem isHeld_acquireHandle (p : Pool σ) (id j : ClusterId) :
    (p.acquireHandle id).2.isHeld j = p.isHeld j := by
  unfold acquireHandle
  split <;> rfl

theorem Tethered.acquireHandle {p : Pool σ} (hp : p.Tethered) (id : ClusterId) :
    (p.acquireHandle id).2.Tethered := by
  intro j h
  rw [isHeld_acquireHandle] at h
  rw [ids_acquireHandle]
  exact hp j h

theorem ids_releaseHandle (p : Pool σ) (id : ClusterId) : (p.releaseHandle id).2.ids = p.ids := by
  unfold releaseHandle
  split
  · simp only
    split
    · exact ids_setHandle p id _
    · exact ids_setHandle p id _
  · rfl

theorem held_of_releaseHandle {p : Pool σ} {id j : ClusterId}
    (h : (p.releaseHandle id).2.isHeld j = true) : p.isHeld j = true := by
  unfold releaseHandle at h
  split at h
  · simp only at h
    split at h
    · rw [isHeld_iff] at h ⊢
      rcases h with ⟨entry, hentry, hid⟩ | h
      · exact .inl ⟨entry, SessionCache.mem_evict hentry, hid⟩
      · exact .inr h
    · exact h
  · exact h

theorem Tethered.releaseHandle {p : Pool σ} (hp : p.Tethered) (id : ClusterId) :
    (p.releaseHandle id).2.Tethered := by
  intro j h
  rw [ids_releaseHandle]
  exact hp j (held_of_releaseHandle h)

/-! ## Looking up -/

/-- The answer is the number of a handle that is there. -/
def Answers (answer : Result ClusterId) (p : Pool σ) : Prop :=
  ∀ id, answer = .ok id → id ∈ p.ids

theorem loadFresh_ids (b : Backend σ) (key : Params) (p : Pool σ) :
    (∀ id ∈ p.ids, id ∈ (p.loadFresh b key).2.ids) ∧
      Answers (p.loadFresh b key).1 (p.loadFresh b key).2 := by
  unfold ids Answers
  rcases loadFresh_cases b key p with ⟨error, herror, hhandles, -⟩ | ⟨config, hok, hhandles, -⟩
  · rw [hhandles, herror]
    exact ⟨fun _ h => h, nofun⟩
  · refine ⟨?_, ?_⟩
    · intro id h
      rw [hhandles]
      exact List.mem_cons_of_mem _ h
    · intro id h
      rw [hok] at h
      cases h
      unfold ids
      rw [hhandles]
      exact List.mem_cons_self

theorem held_of_loadFresh {b : Backend σ} {key : Params} {p : Pool σ} {id : ClusterId}
    (h : (p.loadFresh b key).2.isHeld id = true) :
    p.isHeld id = true ∨ id ∈ (p.loadFresh b key).2.ids := by
  have hbuilds := builds_loadFresh b key p
  generalize p.loadFresh b key = outcome at hbuilds h
  cases hbuilds with
  | invalid => exact .inl h
  | unbuilt => exact .inl h
  | unconnected => exact .inl h
  | connected =>
    rcases isHeld_iff.mp h with ⟨entry, hentry, rfl⟩ | h
    · rcases List.mem_cons.mp hentry with rfl | hentry
      · exact .inr List.mem_cons_self
      · exact .inl (isHeld_iff.mpr (.inl ⟨entry, hentry, rfl⟩))
    · exact .inl (isHeld_iff.mpr (.inr h))

theorem Tethered.loadFresh {p : Pool σ} (hp : p.Tethered) (b : Backend σ) (key : Params) :
    (p.loadFresh b key).2.Tethered :=
  hp.grow (loadFresh_ids b key p).1 fun _ => held_of_loadFresh

theorem Tethered.load {p : Pool σ} (hp : p.Tethered) (b : Backend σ) (key : Params) :
    (p.load b key).2.Tethered ∧ Answers (p.load b key).1 (p.load b key).2 := by
  rw [load_eq]
  split
  · rename_i i hfind
    refine ⟨hp, ?_⟩
    intro id h
    cases h
    refine hp i (isHeld_iff.mpr (.inl ?_))
    exact ⟨(key, i), SessionCache.mem_of_find? hfind, rfl⟩
  · exact ⟨hp.loadFresh b key, (loadFresh_ids b key p).2⟩

theorem answers_acquireHandle {p : Pool σ} {id : ClusterId} (h : id ∈ p.ids) (i : ClusterId) :
    Answers (.ok id) (p.acquireHandle i).2 := by
  intro j hj
  cases hj
  rw [ids_acquireHandle]
  exact h

theorem Tethered.evict {p : Pool σ} (hp : p.Tethered) (key : Params) (id : ClusterId) :
    { p with cache := p.cache.evict key id }.Tethered := by
  refine hp.grow (fun _ h => h) ?_
  intro j h
  rw [isHeld_iff] at h ⊢
  rcases h with ⟨entry, hentry, hid⟩ | h
  · exact .inl (.inl ⟨entry, SessionCache.mem_evict hentry, hid⟩)
  · exact .inl (.inr h)

theorem Rounds.tethered {b : Backend σ} {key : Params} {p : Pool σ} {lookups : List Lookup}
    {outcome : Result ClusterId × Pool σ} (h : Rounds b key p lookups outcome) (hp : p.Tethered) :
    outcome.2.Tethered ∧ Answers outcome.1 outcome.2 := by
  induction h with
  | failed hload =>
    have hloaded := (hp.load b key).1
    rw [hload] at hloaded
    exact ⟨hloaded, nofun⟩
  | @taken p q r id hload htake =>
    obtain ⟨hloaded, hanswers⟩ := hp.load b key
    rw [hload] at hloaded hanswers
    have htethered := hloaded.acquireHandle id
    have hthere := answers_acquireHandle (hanswers id rfl) id
    rw [htake] at htethered hthere
    exact ⟨htethered, hthere⟩
  | @again p q r id _ _ hload htake _ ih =>
    have hloaded := (hp.load b key).1
    rw [hload] at hloaded
    have hrefused := hloaded.acquireHandle id
    rw [htake] at hrefused
    -- The evicted handle may still have a name, and is held by it then.
    exact ih (hrefused.evict key id)

theorem Tethered.acquire {p : Pool σ} (hp : p.Tethered) (b : Backend σ) (key : Params) :
    (p.acquire b key).2.Tethered ∧ Answers (p.acquire b key).1 (p.acquire b key).2 :=
  (rounds_acquire b key p).tethered hp

/-! ## Each call -/

theorem Tethered.nameHandle {p : Pool σ} (hp : p.Tethered) (name : String) {id : ClusterId}
    (hid : id ∈ p.ids) : (p.nameHandle name id).Tethered := by
  refine Tethered.sweep (hp.grow (fun _ h => h) ?_)
  intro j h
  rw [isHeld_iff] at h ⊢
  rcases h with h | ⟨entry, hentry, rfl⟩ | h
  · exact .inl (.inl h)
  · rcases mem_assign hentry with rfl | hentry
    · exact .inr hid
    · exact .inl (.inr (.inl ⟨entry, hentry, rfl⟩))
  · exact .inl (.inr (.inr h))

theorem Tethered.shrink {p q : Pool σ} (hp : p.Tethered) (hids : q.ids = p.ids)
    (hcache : ∀ entry ∈ q.cache.entries, entry ∈ p.cache.entries)
    (hnamed : ∀ entry ∈ q.named, entry ∈ p.named)
    (hconnections : ∀ entry ∈ q.connections, entry ∈ p.connections ∨ entry.2.handle = none) :
    q.Tethered := by
  refine hp.grow (fun id h => hids ▸ h) ?_
  intro id h
  rw [isHeld_iff] at h ⊢
  left
  rcases h with ⟨entry, hentry, hid⟩ | ⟨entry, hentry, hid⟩ | ⟨entry, hentry, hid⟩
  · exact .inl ⟨entry, hcache entry hentry, hid⟩
  · exact .inr (.inl ⟨entry, hnamed entry hentry, hid⟩)
  · rcases hconnections entry hentry with hentry | hnone
    · exact .inr (.inr ⟨entry, hentry, hid⟩)
    · rw [hnone] at hid
      cases hid

theorem mem_remove {α : Type} {l : List (String × α)} {name : String} {entry : String × α}
    (h : entry ∈ Names.remove name l) : entry ∈ l :=
  (List.mem_filter.mp h).1

theorem Tethered.dropName {p : Pool σ} (hp : p.Tethered) (name : String) :
    (p.dropName name).2.Tethered :=
  Tethered.sweep (hp.shrink rfl (fun _ h => h) (fun _ h => mem_remove h) fun _ h => .inl h)

theorem Tethered.invalidate {p : Pool σ} (hp : p.Tethered) (key : Params) :
    (p.invalidate key).2.Tethered :=
  Tethered.sweep (hp.shrink rfl (fun _ h => SessionCache.mem_invalidate h) (fun _ h => h)
    fun _ h => .inl h)

theorem Tethered.releaseConnection {p : Pool σ} (hp : p.Tethered) (c : Connection) :
    (p.releaseConnection c).2.Tethered := by
  unfold Pool.releaseConnection
  split
  · exact hp.releaseHandle _
  · exact hp

theorem Tethered.closeConnection {p : Pool σ} (hp : p.Tethered) (name : String) :
    (p.closeConnection name).2.Tethered := by
  unfold Pool.closeConnection
  split
  · rename_i c _
    refine Tethered.sweep ((hp.releaseConnection c).shrink rfl (fun _ h => h) (fun _ h => h) ?_)
    intro entry h
    rcases mem_assign h with rfl | h
    · exact .inr rfl
    · exact .inl h
  · exact hp

theorem Tethered.dropConnection {p : Pool σ} (hp : p.Tethered) (name : String) :
    (p.dropConnection name).2.Tethered := by
  unfold Pool.dropConnection
  split
  · rename_i c _
    exact Tethered.sweep ((hp.releaseConnection c).shrink rfl (fun _ h => h) (fun _ h => h)
      fun _ h => .inl (mem_remove h))
  · exact hp

theorem ids_releaseConnection (p : Pool σ) (c : Connection) :
    (p.releaseConnection c).2.ids = p.ids := by
  unfold releaseConnection
  split
  · exact ids_releaseHandle p _
  · rfl

theorem Tethered.assignConnection {p : Pool σ} (hp : p.Tethered) (name : String) {c : Connection}
    (hc : ∀ id, c.handle = some id → id ∈ p.ids) :
    { p with connections := Names.assign name c p.connections }.Tethered := by
  refine hp.grow (fun _ h => h) ?_
  intro id h
  rw [isHeld_iff] at h ⊢
  rcases h with h | h | ⟨entry, hentry, hid⟩
  · exact .inl (.inl h)
  · exact .inl (.inr (.inl h))
  · rcases mem_assign hentry with rfl | hentry
    · exact .inr (hc id hid)
    · exact .inl (.inr (.inr ⟨entry, hentry, hid⟩))

theorem Tethered.nameConnection {p : Pool σ} (hp : p.Tethered) (name : String) {c : Connection}
    (hc : ∀ id, c.handle = some id → id ∈ p.ids) : (p.nameConnection name c).Tethered := by
  unfold Pool.nameConnection
  cases p.connections.lookup name with
  | none => exact Tethered.sweep (hp.assignConnection name hc)
  | some replaced =>
    refine Tethered.sweep ((hp.releaseConnection replaced).assignConnection name ?_)
    rw [ids_releaseConnection]
    exact hc

theorem Tethered.connect {p : Pool σ} (hp : p.Tethered) (b : Backend σ) (key : Params)
    (options : CursorOptions) :
    (p.connect b key options).2.Tethered ∧
      ∀ c, (p.connect b key options).1 = .ok c →
        ∀ id, c.handle = some id → id ∈ (p.connect b key options).2.ids := by
  obtain ⟨htethered, hanswers⟩ := hp.acquire b key
  unfold Pool.connect
  split
  · rename_i heq
    rw [heq] at htethered
    exact ⟨htethered.sweep, nofun⟩
  · rename_i heq
    rw [heq] at htethered hanswers
    refine ⟨htethered, ?_⟩
    intro c hc id hid
    cases hc
    cases hid
    exact hanswers _ rfl

theorem held_of_holder {p : Pool σ} {holder : Holder} {id : ClusterId} (h : p.held? holder = some id) :
    p.isHeld id = true := by
  rw [isHeld_iff]
  cases holder with
  | name name => exact .inr (.inl (mem_of_lookup_name h))
  | connection name =>
    obtain ⟨c, hc, hid⟩ := Option.bind_eq_some_iff.mp h
    obtain ⟨entry, hentry, rfl⟩ := mem_of_lookup_name hc
    exact .inr (.inr ⟨entry, hentry, hid⟩)

theorem Tethered.loadAs {p : Pool σ} (hp : p.Tethered) (b : Backend σ) (name : String)
    (key : Params) : (p.loadAs b name key).2.Tethered := by
  obtain ⟨htethered, hanswers⟩ := hp.load b key
  unfold Pool.loadAs
  split
  · rename_i heq
    rw [heq] at htethered
    exact htethered.sweep
  · rename_i heq
    rw [heq] at htethered hanswers
    exact htethered.nameHandle name (hanswers _ rfl)

theorem Tethered.acquireAs {p : Pool σ} (hp : p.Tethered) (b : Backend σ) (name : String)
    (key : Params) : (p.acquireAs b name key).2.Tethered := by
  obtain ⟨htethered, hanswers⟩ := hp.acquire b key
  unfold Pool.acquireAs
  split
  · rename_i heq
    rw [heq] at htethered
    exact htethered.sweep
  · rename_i heq
    rw [heq] at htethered hanswers
    exact htethered.nameHandle name (hanswers _ rfl)

theorem Tethered.perform {p : Pool σ} (hp : p.Tethered) (b : Backend σ) (call : PoolCall) :
    (p.perform b call).2.Tethered := by
  cases call with
  | load name key => exact hp.loadAs b name key
  | acquire name key => exact hp.acquireAs b name key
  | invalidate key => exact hp.invalidate key
  | take holder =>
    simp only [Pool.perform]
    split
    · exact (hp.acquireHandle _).sweep
    · exact hp
  | giveBack holder =>
    simp only [Pool.perform]
    split
    · exact (hp.releaseHandle _).sweep
    · exact hp
  | share name holder =>
    simp only [Pool.perform]
    split
    · rename_i hid
      exact hp.nameHandle name (hp _ (held_of_holder hid))
    · exact hp
  | dropName name => exact hp.dropName name
  | connect name key options =>
    obtain ⟨htethered, hthere⟩ := hp.connect b key options
    simp only [Pool.perform]
    split
    · rename_i heq
      rw [heq] at htethered hthere
      exact htethered.nameConnection name (hthere _ rfl)
    · rename_i heq
      rw [heq] at htethered
      exact htethered
  | close name => exact hp.closeConnection name
  | dropConnection name => exact hp.dropConnection name

theorem tethered_run (b : Backend σ) (backend : σ) (calls : List PoolCall) :
    (run b backend calls).2.Tethered := by
  induction calls using List.reverseRecOn with
  | nil => exact tethered_start backend
  | append_singleton calls call ih =>
    rw [run_append_one]
    exact ih.perform b call

end Pool

end WideRow
