import WideRow.Proofs.Account

/-!
# Acquiring in rounds

To acquire parameters is to load them and to take a reference on what was loaded, again and again
until one is taken. A round that takes none met a disposed handle, whose entry is removed before the
next round.
-/

namespace WideRow

/-- One look-up of parameters in the cache. -/
structure Lookup where
  answer : Result ClusterId
  /-- Whether the cache had no entry, so that a cluster had to be built. -/
  missed : Bool

def Lookup.answered (l : Lookup) : Bool :=
  l.answer.isOk

namespace Handle

theorem live_of_acquire {h : Handle} (ha : h.acquire.1 = true) : h.isDisposed = false := by
  unfold acquire at ha
  split at ha
  · cases ha
  · rename_i hlive
    simpa using hlive

theorem acquire_of_live {h : Handle} (hlive : h.isDisposed = false) :
    h.acquire = (true, h.acquire.2) := by
  unfold acquire
  simp [hlive]

theorem key_acquire (h : Handle) : h.acquire.2.key = h.key := by
  unfold acquire
  split <;> rfl

theorem not_isDisposed_iff (h : Handle) : h.isDisposed = false ↔ 0 ≤ h.refs.toInt := by
  rw [← Bool.not_eq_true, isDisposed_iff, Int.not_lt]

end Handle

namespace Pool

variable {σ : Type}

/-! ## Looking up -/

theorem loadFresh_cases (b : Backend σ) (key : Params) (p : Pool σ) :
    (∃ error, (p.loadFresh b key).1 = .error error ∧
        (p.loadFresh b key).2.handles = p.handles ∧ (p.loadFresh b key).2.cache = p.cache ∧
        p.nextId ≤ (p.loadFresh b key).2.nextId) ∨
      ∃ config, (p.loadFresh b key).1 = .ok p.nextId ∧
        (p.loadFresh b key).2.handles = (p.nextId, Handle.fresh key config) :: p.handles ∧
        (p.loadFresh b key).2.cache = p.cache.store key p.nextId ∧
        (p.loadFresh b key).2.nextId = p.nextId + 1 := by
  have hbuilds := builds_loadFresh b key p
  generalize p.loadFresh b key = outcome at hbuilds
  cases hbuilds with
  | invalid => exact .inl ⟨_, rfl, rfl, rfl, Nat.le_refl _⟩
  | unbuilt => exact .inl ⟨_, rfl, rfl, rfl, Nat.le_refl _⟩
  | unconnected => exact .inl ⟨_, rfl, rfl, rfl, Nat.le_succ _⟩
  | connected => exact .inr ⟨_, rfl, rfl, rfl, rfl⟩

theorem find?_loadFresh {b : Backend σ} {key : Params} {p q : Pool σ} {id : ClusterId}
    (h : p.loadFresh b key = (.ok id, q)) : q.cache.find? key = some id := by
  have hcases := loadFresh_cases b key p
  rw [h] at hcases
  rcases hcases with ⟨error, herror, -⟩ | ⟨config, hok, -, hcache, -⟩
  · cases herror
  · cases hok
    rw [hcache]
    exact p.cache.find?_store_self key p.nextId

theorem find?_load {b : Backend σ} {key : Params} {p q : Pool σ} {id : ClusterId}
    (h : p.load b key = (.ok id, q)) : q.cache.find? key = some id := by
  cases hcached : p.cache.find? key with
  | some i =>
    rw [load_hit hcached] at h
    cases h
    exact hcached
  | none =>
    rw [load_miss hcached] at h
    exact find?_loadFresh h

theorem cache_load {b : Backend σ} {key : Params} {p q : Pool σ} {answer : Result ClusterId}
    (h : p.load b key = (answer, q)) :
    (∃ id, answer = .ok id ∧ q.cache = p.cache.hit) ∨
      (∃ error, answer = .error error ∧ q.cache = p.cache) ∨
      ∃ id, answer = .ok id ∧ q.cache = p.cache.store key id := by
  cases hcached : p.cache.find? key with
  | some id =>
    rw [load_hit hcached] at h
    cases h
    exact .inl ⟨id, rfl, rfl⟩
  | none =>
    rw [load_miss hcached] at h
    have hcases := loadFresh_cases b key p
    rw [h] at hcases
    rcases hcases with ⟨error, hanswer, -, hcache, -⟩ | ⟨config, hanswer, -, hcache, -⟩
    · exact .inr (.inl ⟨error, hanswer, hcache⟩)
    · exact .inr (.inr ⟨p.nextId, hanswer, hcache⟩)

theorem handle?_loadFresh {b : Backend σ} {key : Params} {p q : Pool σ} {id : ClusterId}
    (h : p.loadFresh b key = (.ok id, q)) :
    ∃ config, q.handle? id = some (Handle.fresh key config) := by
  have hcases := loadFresh_cases b key p
  rw [h] at hcases
  rcases hcases with ⟨error, herror, -⟩ | ⟨config, hok, hhandles, -⟩
  · cases herror
  · cases hok
    refine ⟨config, ?_⟩
    unfold handle?
    rw [hhandles, lookup_cons_self]

theorem handle_of_load {b : Backend σ} {key : Params} {p q : Pool σ} {id : ClusterId} {h : Handle}
    (hload : p.load b key = (.ok id, q)) (hid : q.handle? id = some h) :
    (p.cache.find? key = some id ∧ p.handle? id = some h) ∨ ∃ config, h = .fresh key config := by
  cases hcached : p.cache.find? key with
  | some i =>
    rw [load_hit hcached] at hload
    cases hload
    exact .inl ⟨rfl, hid⟩
  | none =>
    rw [load_miss hcached] at hload
    obtain ⟨config, hthere⟩ := handle?_loadFresh hload
    rw [hthere] at hid
    cases hid
    exact .inr ⟨config, rfl⟩

/-! ## Taking a reference -/

theorem cache_acquireHandle {p q : Pool σ} {id : ClusterId} {answer : Bool}
    (h : p.acquireHandle id = (answer, q)) : q.cache = p.cache := by
  unfold acquireHandle at h
  split at h <;> cases h <;> rfl

theorem handle_of_take {p q : Pool σ} {id : ClusterId} (htake : p.acquireHandle id = (true, q)) :
    ∃ h, p.handle? id = some h ∧ h.isDisposed = false ∧ q.handle? id = some h.acquire.2 := by
  cases hid : p.handle? id with
  | none =>
    rw [acquireHandle_none hid] at htake
    cases htake
  | some h =>
    rw [acquireHandle_some hid] at htake
    obtain ⟨htrue, rfl⟩ := Prod.mk.inj htake
    exact ⟨h, rfl, Handle.live_of_acquire htrue, handle?_setHandle_self hid⟩

/-! ## Rounds -/

def lookup (b : Backend σ) (key : Params) (p : Pool σ) : Lookup :=
  ⟨(p.load b key).1, !p.cache.contains key⟩

/-- The look-ups and the outcome of the rounds that start in a pool. -/
inductive Rounds (b : Backend σ) (key : Params) :
    Pool σ → List Lookup → Result ClusterId × Pool σ → Prop
  | failed {p q : Pool σ} {error : ClientError} (hload : p.load b key = (.error error, q)) :
      Rounds b key p [p.lookup b key] (.error error, q)
  | taken {p q r : Pool σ} {id : ClusterId} (hload : p.load b key = (.ok id, q))
      (htake : q.acquireHandle id = (true, r)) :
      Rounds b key p [p.lookup b key] (.ok id, r)
  | again {p q r : Pool σ} {id : ClusterId} {lookups : List Lookup}
      {outcome : Result ClusterId × Pool σ} (hload : p.load b key = (.ok id, q))
      (htake : q.acquireHandle id = (false, r))
      (hrest : Rounds b key { r with cache := r.cache.evict key id } lookups outcome) :
      Rounds b key p (p.lookup b key :: lookups) outcome

def acquireLookups (b : Backend σ) (key : Params) (p : Pool σ) : List Lookup :=
  match p.load b key with
  | (.error _, _) => [p.lookup b key]
  | (.ok id, q) =>
    match q.acquireHandle id with
    | (true, _) => [p.lookup b key]
    | (false, r) =>
      [p.lookup b key, { r with cache := r.cache.evict key id }.lookup b key]

theorem find?_again {b : Backend σ} {key : Params} {p q r : Pool σ} {id : ClusterId}
    (hload : p.load b key = (.ok id, q)) (htake : q.acquireHandle id = (false, r)) :
    (r.cache.evict key id).find? key = none := by
  rw [cache_acquireHandle htake, SessionCache.evict_of_find? (find?_load hload),
    SessionCache.find?_remove]

theorem acquire_failed {b : Backend σ} {key : Params} {p q : Pool σ} {error : ClientError}
    (hload : p.load b key = (.error error, q)) :
    p.acquire b key = (.error error, q) ∧ p.acquireLookups b key = [p.lookup b key] := by
  simp [acquire, acquireLookups, hload]

theorem acquire_taken {b : Backend σ} {key : Params} {p q r : Pool σ} {id : ClusterId}
    (hload : p.load b key = (.ok id, q)) (htake : q.acquireHandle id = (true, r)) :
    p.acquire b key = (.ok id, r) ∧ p.acquireLookups b key = [p.lookup b key] := by
  simp [acquire, acquireLookups, hload, htake]

theorem round_of_miss {b : Backend σ} {key : Params} {p : Pool σ} (h : p.cache.find? key = none) :
    (∃ error q, p.load b key = (.error error, q)) ∨
      ∃ id q r, p.load b key = (.ok id, q) ∧ q.acquireHandle id = (true, r) := by
  rw [load_miss h]
  cases hfresh : p.loadFresh b key with
  | mk answer q =>
    cases answer with
    | error error => exact .inl ⟨error, q, rfl⟩
    | ok id =>
      right
      obtain ⟨config, hthere⟩ := handle?_loadFresh hfresh
      exact ⟨id, q, q.setHandle id (Handle.fresh key config).acquire.2, rfl,
        acquireHandle_some hthere⟩

theorem acquire_again {b : Backend σ} {key : Params} {p q r : Pool σ} {id : ClusterId}
    (hload : p.load b key = (.ok id, q)) (htake : q.acquireHandle id = (false, r)) :
    p.acquire b key = { r with cache := r.cache.evict key id }.acquire b key ∧
      p.acquireLookups b key =
        p.lookup b key :: { r with cache := r.cache.evict key id }.acquireLookups b key := by
  have hmiss := find?_again hload htake
  rcases round_of_miss (p := { r with cache := r.cache.evict key id }) hmiss with
    ⟨error, u, hload'⟩ | ⟨i, u, v, hload', htake'⟩
  · rw [(acquire_failed hload').1, (acquire_failed hload').2]
    simp [acquire, acquireLookups, hload, htake, hload']
  · rw [(acquire_taken hload' htake').1, (acquire_taken hload' htake').2]
    simp [acquire, acquireLookups, hload, htake, hload', htake']

theorem rounds_acquire (b : Backend σ) (key : Params) (p : Pool σ) :
    Rounds b key p (p.acquireLookups b key) (p.acquire b key) := by
  cases hload : p.load b key with
  | mk answer q =>
    cases answer with
    | error error =>
      rw [(acquire_failed hload).1, (acquire_failed hload).2]
      exact .failed hload
    | ok id =>
      cases htake : q.acquireHandle id with
      | mk answer r =>
        cases answer with
        | true =>
          rw [(acquire_taken hload htake).1, (acquire_taken hload htake).2]
          exact .taken hload htake
        | false =>
          rw [(acquire_again hload htake).1, (acquire_again hload htake).2]
          apply Rounds.again hload htake
          rcases round_of_miss (p := { r with cache := r.cache.evict key id })
            (find?_again hload htake) with ⟨error, u, hload'⟩ | ⟨i, u, v, hload', htake'⟩
          · rw [(acquire_failed hload').1, (acquire_failed hload').2]
            exact .failed hload'
          · rw [(acquire_taken hload' htake').1, (acquire_taken hload' htake').2]
            exact .taken hload' htake'

theorem Rounds.unique {b : Backend σ} {key : Params} {p : Pool σ} {lookups lookups' : List Lookup}
    {outcome outcome' : Result ClusterId × Pool σ} (h : Rounds b key p lookups outcome)
    (h' : Rounds b key p lookups' outcome') : lookups = lookups' ∧ outcome = outcome' := by
  induction h generalizing lookups' outcome' with
  | failed hload =>
    cases h' with
    | failed hload' =>
      rw [hload] at hload'
      cases hload'
      exact ⟨rfl, rfl⟩
    | taken hload' => simp [hload] at hload'
    | again hload' => simp [hload] at hload'
  | taken hload htake =>
    cases h' with
    | failed hload' => simp [hload] at hload'
    | taken hload' htake' =>
      rw [hload] at hload'
      cases hload'
      rw [htake] at htake'
      cases htake'
      exact ⟨rfl, rfl⟩
    | again hload' htake' =>
      rw [hload] at hload'
      cases hload'
      simp [htake] at htake'
  | again hload htake _ ih =>
    cases h' with
    | failed hload' => simp [hload] at hload'
    | taken hload' htake' =>
      rw [hload] at hload'
      cases hload'
      simp [htake] at htake'
    | again hload' htake' hrest' =>
      rw [hload] at hload'
      cases hload'
      rw [htake] at htake'
      cases htake'
      obtain ⟨rfl, rfl⟩ := ih hrest'
      exact ⟨rfl, rfl⟩

/-! ## How many rounds -/

theorem acquireLookups_cases (b : Backend σ) (key : Params) (p : Pool σ) :
    p.acquireLookups b key = [p.lookup b key] ∨
      (p.lookup b key).missed = false ∧ ∃ l, p.acquireLookups b key = [p.lookup b key, l] := by
  cases hload : p.load b key with
  | mk answer q =>
    cases answer with
    | error error => exact .inl (acquire_failed hload).2
    | ok id =>
      cases htake : q.acquireHandle id with
      | mk answer r =>
        cases answer with
        | true => exact .inl (acquire_taken hload htake).2
        | false =>
          right
          constructor
          · cases hcached : p.cache.find? key with
            | some i => simp [lookup, SlotTable.contains, hcached]
            | none =>
              rcases round_of_miss (b := b) hcached with ⟨error, u, hload'⟩ | ⟨i, u, v, hload', htake'⟩
              · rw [hload] at hload'
                cases hload'
              · rw [hload] at hload'
                cases hload'
                rw [htake] at htake'
                cases htake'
          · unfold acquireLookups
            simp [hload, htake]

theorem few_lookups (b : Backend σ) (key : Params) (p : Pool σ) :
    (p.acquireLookups b key).length ≤ 2 ∧ (p.acquireLookups b key).countP Lookup.missed ≤ 1 := by
  rcases acquireLookups_cases b key p with hone | ⟨hfound, l, htwo⟩
  · rw [hone]
    exact ⟨by simp, List.countP_le_length⟩
  · rw [htwo, List.countP_cons_of_neg (by simp [hfound])]
    exact ⟨by simp, List.countP_le_length⟩

theorem acquire_shared {b : Backend σ} {key : Params} {p : Pool σ} {id : ClusterId} {h : Handle}
    (hfind : p.cache.find? key = some id) (hid : p.handle? id = some h)
    (hlive : h.isDisposed = false) :
    p.acquire b key = (.ok id, { p with cache := p.cache.hit }.setHandle id h.acquire.2) ∧
      p.acquireLookups b key = [p.lookup b key] := by
  have htake : { p with cache := p.cache.hit }.acquireHandle id =
      (true, { p with cache := p.cache.hit }.setHandle id h.acquire.2) := by
    rw [acquireHandle_some (p := { p with cache := p.cache.hit }) hid, Handle.acquire_of_live hlive]
  exact acquire_taken (load_hit hfind) htake

theorem evictions_load {b : Backend σ} {key : Params} {p q : Pool σ} {answer : Result ClusterId}
    (h : p.load b key = (answer, q)) : q.cache.evictions = p.cache.evictions := by
  rcases cache_load h with ⟨id, -, hcache⟩ | ⟨error, -, hcache⟩ | ⟨id, -, hcache⟩
  · rw [hcache]
    rfl
  · rw [hcache]
  · rw [hcache]
    rfl

theorem Rounds.evictions {b : Backend σ} {key : Params} {p : Pool σ} {lookups : List Lookup}
    {outcome : Result ClusterId × Pool σ} (h : Rounds b key p lookups outcome) :
    outcome.2.cache.evictions + 1 = p.cache.evictions + lookups.length := by
  -- Between two rounds an entry is removed.
  induction h with
  | failed hload => exact congrArg (· + 1) (evictions_load hload)
  | taken hload htake =>
    simp [cache_acquireHandle htake, evictions_load hload]
  | again hload htake _ ih =>
    rw [ih, cache_acquireHandle htake, SessionCache.evict_of_find? (find?_load hload)]
    simp only [SessionCache.remove, evictions_load hload, List.length_cons]
    omega

/-! ## What the rounds give -/

/-- An entry may stand for a disposed handle, but not for an open session of other parameters. -/
def Keyed (p : Pool σ) (key : Params) : Prop :=
  ∀ id h, p.cache.find? key = some id → p.handle? id = some h → h.isDisposed = false → h.key = key

/-- The handle that is cached for the key can count one reference more. -/
def Spare (p : Pool σ) (key : Params) : Prop :=
  ∀ id h, p.cache.find? key = some id → p.handle? id = some h → h.refs.toInt < 2147483647

theorem spare_load {b : Backend σ} {key : Params} {p q : Pool σ} {id : ClusterId}
    (hload : p.load b key = (.ok id, q)) (hspare : p.Spare key) :
    ∀ h, q.handle? id = some h → h.refs.toInt < 2147483647 := by
  rintro h hid
  rcases handle_of_load hload hid with ⟨hfind, hid⟩ | ⟨config, rfl⟩
  · exact hspare id h hfind hid
  · exact (by decide : (0 : Int32).toInt < 2147483647)

theorem keyed_again {b : Backend σ} {key : Params} {p q r : Pool σ} {id : ClusterId}
    (hload : p.load b key = (.ok id, q)) (htake : q.acquireHandle id = (false, r)) :
    { r with cache := r.cache.evict key id }.Keyed key := by
  rintro i h hfind
  rw [find?_again hload htake] at hfind
  cases hfind

theorem spare_again {b : Backend σ} {key : Params} {p q r : Pool σ} {id : ClusterId}
    (hload : p.load b key = (.ok id, q)) (htake : q.acquireHandle id = (false, r)) :
    { r with cache := r.cache.evict key id }.Spare key := by
  rintro i h hfind
  rw [find?_again hload htake] at hfind
  cases hfind

/-- What the rounds give is cached for the key, was made for it, and has a reference. -/
theorem Rounds.takes {b : Backend σ} {key : Params} {p q : Pool σ} {id : ClusterId}
    {lookups : List Lookup} {outcome : Result ClusterId × Pool σ}
    (h : Rounds b key p lookups outcome) (hkeyed : p.Keyed key) (houtcome : outcome = (.ok id, q)) :
    q.cache.find? key = some id ∧ ∃ x, q.handle? id = some x ∧ x.key = key ∧
      (p.Spare key → x.isDisposed = false ∧ 1 ≤ x.refs.toInt) := by
  induction h with
  | failed hload => cases houtcome
  | taken hload htake =>
    cases houtcome
    obtain ⟨x, hx, hlive, htaken⟩ := handle_of_take htake
    refine ⟨cache_acquireHandle htake ▸ find?_load hload, x.acquire.2, htaken, ?_, ?_⟩
    · rw [x.key_acquire]
      rcases handle_of_load hload hx with ⟨hfind, hid⟩ | ⟨config, rfl⟩
      · exact hkeyed id x hfind hid hlive
      · rfl
    · intro hspare
      have hfew := spare_load hload hspare x hx
      rw [Handle.not_isDisposed_iff] at hlive ⊢
      rw [(Handle.acquire_live hlive hfew).2]
      omega
  | again hload htake _ ih =>
    obtain ⟨hfind, x, hx, hkey, hspare⟩ := ih (keyed_again hload htake) houtcome
    exact ⟨hfind, x, hx, hkey, fun _ => hspare (spare_again hload htake)⟩

end Pool

end WideRow
