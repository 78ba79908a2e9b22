import WideRow.Proofs.Holding

/-!
# Look-ups counted

Every answered look-up is counted, as a hit or as a load.
-/

namespace WideRow

namespace Pool

variable {σ : Type}

/-! ## Looking up -/

def served (p : Pool σ) : Nat :=
  p.cache.hits + p.cache.loads

theorem served_load {b : Backend σ} {key : Params} {p q : Pool σ} {answer : Result ClusterId}
    (h : p.load b key = (answer, q)) :
    q.served = p.served + [p.lookup b key].countP Lookup.answered := by
  unfold lookup served
  rw [h]
  rcases cache_load h with ⟨id, rfl, hcache⟩ | ⟨error, rfl, hcache⟩ | ⟨id, rfl, hcache⟩
  · rw [hcache]
    exact Nat.add_right_comm p.cache.hits 1 p.cache.loads
  · rw [hcache]
    rfl
  · rw [hcache]
    rfl

theorem served_acquireHandle {p q : Pool σ} {id : ClusterId} {answer : Bool}
    (h : p.acquireHandle id = (answer, q)) : q.served = p.served := by
  unfold served
  rw [cache_acquireHandle h]

theorem served_evict (p : Pool σ) (key : Params) (id : ClusterId) :
    { p with cache := p.cache.evict key id }.served = p.served := by
  unfold served
  rw [SessionCache.evict_eq]
  split <;> rfl

theorem Rounds.served {b : Backend σ} {key : Params} {p : Pool σ} {lookups : List Lookup}
    {outcome : Result ClusterId × Pool σ} (h : Rounds b key p lookups outcome) :
    outcome.2.served = p.served + lookups.countP Lookup.answered := by
  induction h with
  | failed hload => exact served_load hload
  | taken hload htake => exact (served_acquireHandle htake).trans (served_load hload)
  | again hload htake _ ih =>
    rw [ih, served_evict, served_acquireHandle htake, served_load hload, Nat.add_assoc,
      ← List.countP_append]
    rfl

/-! ## Each call -/

def lookups (b : Backend σ) (p : Pool σ) : PoolCall → List Lookup
  | .load _ key => [p.lookup b key]
  | .acquire _ key | .connect _ key _ => p.acquireLookups b key
  | _ => []

theorem served_sweep (p : Pool σ) : p.sweep.served = p.served := by
  unfold served
  rw [cache_sweep]

theorem served_nameHandle (p : Pool σ) (name : String) (id : ClusterId) :
    (p.nameHandle name id).served = p.served :=
  served_sweep _

theorem served_releaseHandle (p : Pool σ) (id : ClusterId) :
    (p.releaseHandle id).2.served = p.served := by
  cases hid : p.handle? id with
  | none => rw [releaseHandle_none hid]
  | some x =>
    cases hx : x.release.1 with
    | false =>
      rw [releaseHandle_kept hid hx]
      rfl
    | true =>
      rw [releaseHandle_last hid hx]
      exact served_evict p x.key id

theorem served_releaseConnection (p : Pool σ) (c : Connection) :
    (p.releaseConnection c).2.served = p.served := by
  unfold releaseConnection
  split
  · exact served_releaseHandle p _
  · rfl

theorem served_nameConnection (p : Pool σ) (name : String) (c : Connection) :
    (p.nameConnection name c).served = p.served := by
  unfold nameConnection
  rw [served_sweep]
  cases p.connections.lookup name with
  | none => rfl
  | some replaced => exact served_releaseConnection p replaced

theorem served_invalidate (p : Pool σ) (key : Params) : (p.invalidate key).2.served = p.served := by
  unfold invalidate
  rw [served_sweep]
  unfold served
  rw [SessionCache.invalidate_eq]
  split <;> rfl

theorem served_perform (b : Backend σ) (p : Pool σ) (call : PoolCall) :
    (p.perform b call).2.served = p.served + (p.lookups b call).countP Lookup.answered := by
  cases call with
  | load name key =>
    simp only [perform, loadAs, lookups]
    split
    · rename_i hload
      exact (served_sweep _).trans (served_load hload)
    · rename_i hload
      exact (served_nameHandle _ name _).trans (served_load hload)
  | acquire name key =>
    have hacquire := (rounds_acquire b key p).served
    simp only [perform, acquireAs, lookups]
    split
    · rename_i heq
      rw [heq] at hacquire
      exact (served_sweep _).trans hacquire
    · rename_i heq
      rw [heq] at hacquire
      exact (served_nameHandle _ name _).trans hacquire
  | invalidate key => exact served_invalidate p key
  | take holder =>
    simp only [perform, lookups]
    split
    · exact (served_sweep _).trans (served_acquireHandle rfl)
    · rfl
  | giveBack holder =>
    simp only [perform, lookups]
    split
    · rw [served_sweep, served_releaseHandle]
      rfl
    · rfl
  | share name holder =>
    simp only [perform, lookups]
    split
    · exact served_sweep _
    · rfl
  | dropName name => exact served_sweep _
  | connect name key options =>
    have hacquire := (rounds_acquire b key p).served
    simp only [perform, connect, lookups]
    cases heq : p.acquire b key with
    | mk answer q =>
      rw [heq] at hacquire
      cases answer with
      | error error => exact (served_sweep q).trans hacquire
      | ok id => exact (served_nameConnection q name _).trans hacquire
  | close name =>
    simp only [perform, closeConnection, lookups]
    split
    · rw [served_sweep]
      exact served_releaseConnection p _
    · rfl
  | dropConnection name =>
    simp only [perform, dropConnection, lookups]
    split
    · rw [served_sweep]
      exact served_releaseConnection p _
    · rfl

/-! ## Runs -/

def lookupsFrom (b : Backend σ) : Pool σ → List PoolCall → List Lookup
  | _, [] => []
  | p, call :: calls => p.lookups b call ++ lookupsFrom b (p.perform b call).2 calls

theorem served_foldl (b : Backend σ) (p : Pool σ) (calls : List PoolCall) :
    (calls.foldl (fun p call => (p.perform b call).2) p).served =
      p.served + (p.lookupsFrom b calls).countP Lookup.answered := by
  induction calls generalizing p with
  | nil => rfl
  | cons call calls ih =>
    rw [List.foldl_cons, ih, served_perform, lookupsFrom, List.countP_append, Nat.add_assoc]

theorem length_lookups_le (b : Backend σ) (p : Pool σ) (call : PoolCall) :
    (p.lookups b call).length ≤ 2 := by
  unfold lookups
  split
  · exact Nat.le_succ 1
  · exact (few_lookups b _ p).1
  · exact (few_lookups b _ p).1
  · exact Nat.zero_le 2

theorem length_lookupsFrom_le (b : Backend σ) (p : Pool σ) (calls : List PoolCall) :
    (p.lookupsFrom b calls).length ≤ 2 * calls.length := by
  induction calls generalizing p with
  | nil => exact Nat.le_refl 0
  | cons call calls ih =>
    have hcall := length_lookups_le b p call
    have hrest := ih (p.perform b call).2
    rw [lookupsFrom, List.length_append, List.length_cons]
    omega

theorem run_snd (b : Backend σ) (backend : σ) (calls : List PoolCall) :
    (run b backend calls).2 = calls.foldl (fun p call => (p.perform b call).2) (start backend) := by
  induction calls using List.reverseRecOn with
  | nil => rfl
  | append_singleton calls call ih =>
    rw [run_append_one, List.foldl_append, ih]
    rfl

/-- It takes many calls to count far. -/
theorem served_run_le (b : Backend σ) (backend : σ) (calls : List PoolCall) :
    (run b backend calls).2.served ≤ 2 * calls.length := by
  have hfew := length_lookupsFrom_le b (start backend) calls
  have hanswered := List.countP_le_length (p := Lookup.answered)
    (l := (start backend).lookupsFrom b calls)
  have hnone : (start backend).served = 0 := rfl
  rw [run_snd, served_foldl]
  omega

end Pool

end WideRow
