import Mathlib.Data.List.Induction
import WideRow.Proofs.Rounds

/-! # Sessions over whole runs -/

namespace WideRow

/-! ## Calls -/

/-- Who has a handle and may call it. -/
inductive Holder where
  | name (name : String)
  | connection (name : String)

/-- The calls to a pool. -/
inductive PoolCall where
  | load (name : String) (key : Params)
  | acquire (name : String) (key : Params)
  | invalidate (key : Params)
  /-- A reference taken by a holder. -/
  | take (holder : Holder)
  /-- A reference given back by a holder, which need not have one. -/
  | giveBack (holder : Holder)
  | share (name : String) (holder : Holder)
  | dropName (name : String)
  | connect (name : String) (key : Params) (options : CursorOptions)
  | close (name : String)
  | dropConnection (name : String)

namespace Pool

variable {σ : Type}

def held? (p : Pool σ) : Holder → Option ClusterId
  | .name name => p.named.lookup name
  | .connection name => (p.connections.lookup name).bind Connection.handle

/-- What the answer of looking up a handle with one more reference adds to the history. -/
def acquisition : Result ClusterId → List RefEvent
  | .ok id => [.acquired id]
  | .error _ => []

/-- What closing a connection adds to the history. -/
def givenBackBy (p : Pool σ) (c : Connection) : List RefEvent :=
  match c.handle with
  | some id => p.givenBack id
  | none => []

/-- What closing the connection with a name adds to the history. -/
def givenBackAs (p : Pool σ) (name : String) : List RefEvent :=
  match p.connections.lookup name with
  | some c => p.givenBackBy c
  | none => []

/-- The references that a call takes and gives back, and the pool that it leaves. -/
def perform (b : Backend σ) (p : Pool σ) : PoolCall → List RefEvent × Pool σ
  | .load name key => ([], (p.loadAs b name key).2)
  | .acquire name key => (acquisition (p.acquireAs b name key).1, (p.acquireAs b name key).2)
  | .invalidate key => ([], (p.invalidate key).2)
  | .take holder =>
    match p.held? holder with
    | some id => (taken id (p.acquireHandle id).1, (p.acquireHandle id).2.sweep)
    | none => ([], p)
  | .giveBack holder =>
    match p.held? holder with
    | some id => (p.givenBack id, (p.releaseHandle id).2.sweep)
    | none => ([], p)
  | .share name holder =>
    match p.held? holder with
    | some id => ([], p.nameHandle name id)
    | none => ([], p)
  | .dropName name => ([], (p.dropName name).2)
  | .connect name key options =>
    match p.connect b key options with
    | (.ok c, p) => (c.handle.toList.map .acquired ++ p.givenBackAs name, p.nameConnection name c)
    | (.error _, p) => ([], p)
  | .close name => (p.givenBackAs name, (p.closeConnection name).2)
  | .dropConnection name => (p.givenBackAs name, (p.dropConnection name).2)

/-- The history of references and the pool, after calls to a new pool. -/
def run (b : Backend σ) (backend : σ) (calls : List PoolCall) : List RefEvent × Pool σ :=
  calls.foldl (fun s call => (s.1 ++ (s.2.perform b call).1, (s.2.perform b call).2))
    ([], start backend)

theorem run_append_one (b : Backend σ) (backend : σ) (calls : List PoolCall) (call : PoolCall) :
    run b backend (calls ++ [call]) =
      ((run b backend calls).1 ++ ((run b backend calls).2.perform b call).1,
        ((run b backend calls).2.perform b call).2) := by
  unfold run
  rw [List.foldl_append, List.foldl_cons, List.foldl_nil]

/-! ## Looking up -/

/-- The counts are far from the greatest one. -/
def Room (p : Pool σ) : Prop :=
  ∀ id h, p.handle? id = some h → h.refs.toInt < 2147483647

theorem Sound.load {p : Pool σ} {history : List RefEvent} (hp : p.Sound history)
    (b : Backend σ) (key : Params) : (p.load b key).2.Sound history := by
  rw [load_eq]
  split
  · exact hp.congr rfl rfl rfl
  · exact hp.loadFresh b key

theorem Rounds.sound {b : Backend σ} {key : Params} {p : Pool σ} {lookups : List Lookup}
    {outcome : Result ClusterId × Pool σ} (h : Rounds b key p lookups outcome)
    {history : List RefEvent} (hp : p.Sound history) (hspare : p.Spare key) :
    outcome.2.Sound (history ++ acquisition outcome.1) := by
  induction h with
  | failed hload =>
    have hloaded := hp.load b key
    rw [hload] at hloaded
    exact (List.append_nil history).symm ▸ hloaded
  | taken hload htake =>
    have hloaded := hp.load b key
    rw [hload] at hloaded
    have htaken := hloaded.acquireHandle _ (spare_load hload hspare)
    rw [htake] at htaken
    exact htaken
  | again hload htake _ ih =>
    have hloaded := hp.load b key
    rw [hload] at hloaded
    have hrefused := hloaded.acquireHandle _ (spare_load hload hspare)
    rw [htake] at hrefused
    simp only [Pool.taken, Bool.false_eq_true, if_false, List.append_nil] at hrefused
    exact ih (hrefused.congr rfl rfl rfl) (spare_again hload htake)

theorem Sound.acquire {p : Pool σ} {history : List RefEvent} (hp : p.Sound history) (hroom : p.Room)
    (b : Backend σ) (key : Params) :
    (p.acquire b key).2.Sound (history ++ acquisition (p.acquire b key).1) :=
  (rounds_acquire b key p).sound hp fun id h _ hid => hroom id h hid

/-! ## Each call -/

theorem Sound.nameHandle {p : Pool σ} {history : List RefEvent} (hp : p.Sound history)
    (name : String) (id : ClusterId) : (p.nameHandle name id).Sound history :=
  Sound.sweep (hp.congr rfl rfl rfl)

theorem Sound.loadAs {p : Pool σ} {history : List RefEvent} (hp : p.Sound history) (b : Backend σ)
    (name : String) (key : Params) : (p.loadAs b name key).2.Sound history := by
  have hload := hp.load b key
  unfold Pool.loadAs
  split
  · rename_i heq
    rw [heq] at hload
    exact hload.sweep
  · rename_i heq
    rw [heq] at hload
    exact hload.nameHandle name _

theorem Sound.acquireAs {p : Pool σ} {history : List RefEvent} (hp : p.Sound history) (hroom : p.Room)
    (b : Backend σ) (name : String) (key : Params) :
    (p.acquireAs b name key).2.Sound (history ++ acquisition (p.acquireAs b name key).1) := by
  have hacquire := hp.acquire hroom b key
  unfold Pool.acquireAs
  split
  · rename_i heq
    rw [heq] at hacquire
    exact hacquire.sweep
  · rename_i heq
    rw [heq] at hacquire
    exact hacquire.nameHandle name _

theorem Sound.releaseConnection {p : Pool σ} {history : List RefEvent} (hp : p.Sound history)
    (c : Connection) : (p.releaseConnection c).2.Sound (history ++ p.givenBackBy c) := by
  unfold Pool.releaseConnection givenBackBy
  cases c.handle with
  | none => exact (List.append_nil history).symm ▸ hp
  | some id => exact hp.releaseHandle id

theorem Sound.closeConnection {p : Pool σ} {history : List RefEvent} (hp : p.Sound history)
    (name : String) : (p.closeConnection name).2.Sound (history ++ p.givenBackAs name) := by
  unfold Pool.closeConnection givenBackAs
  cases p.connections.lookup name with
  | none => exact (List.append_nil history).symm ▸ hp
  | some c => exact Sound.sweep ((hp.releaseConnection c).congr rfl rfl rfl)

theorem Sound.dropConnection {p : Pool σ} {history : List RefEvent} (hp : p.Sound history)
    (name : String) : (p.dropConnection name).2.Sound (history ++ p.givenBackAs name) := by
  unfold Pool.dropConnection givenBackAs
  cases p.connections.lookup name with
  | none => exact (List.append_nil history).symm ▸ hp
  | some c => exact Sound.sweep ((hp.releaseConnection c).congr rfl rfl rfl)

theorem Sound.nameConnection {p : Pool σ} {history : List RefEvent} (hp : p.Sound history)
    (name : String) (c : Connection) :
    (p.nameConnection name c).Sound (history ++ p.givenBackAs name) := by
  unfold Pool.nameConnection givenBackAs
  cases p.connections.lookup name with
  | none =>
    rw [List.append_nil]
    exact Sound.sweep (hp.congr rfl rfl rfl)
  | some replaced => exact Sound.sweep ((hp.releaseConnection replaced).congr rfl rfl rfl)

theorem Sound.connect {p q : Pool σ} {history : List RefEvent} (hp : p.Sound history)
    (hroom : p.Room) {b : Backend σ} {key : Params} {options : CursorOptions} {c : Connection}
    (h : p.connect b key options = (.ok c, q)) :
    q.Sound (history ++ c.handle.toList.map .acquired) := by
  have hacquire := hp.acquire hroom b key
  unfold Pool.connect at h
  split at h
  · cases h
  · rename_i heq
    rw [heq] at hacquire
    cases h
    exact hacquire

theorem Sound.perform {p : Pool σ} {history : List RefEvent} (hp : p.Sound history) (hroom : p.Room)
    (b : Backend σ) (call : PoolCall) :
    (p.perform b call).2.Sound (history ++ (p.perform b call).1) := by
  have idle : p.Sound (history ++ []) := (List.append_nil history).symm ▸ hp
  cases call with
  | load name key => exact idle.loadAs b name key
  | acquire name key => exact hp.acquireAs hroom b name key
  | invalidate key => exact Sound.sweep (idle.congr rfl rfl rfl)
  | take holder =>
    simp only [Pool.perform]
    split
    · rename_i id _
      exact (hp.acquireHandle id (hroom id)).sweep
    · exact idle
  | giveBack holder =>
    simp only [Pool.perform]
    split
    · rename_i id _
      exact (hp.releaseHandle id).sweep
    · exact idle
  | share name holder =>
    simp only [Pool.perform]
    split
    · rename_i id _
      exact idle.nameHandle name id
    · exact idle
  | dropName name => exact Sound.sweep (idle.congr rfl rfl rfl)
  | connect name key options =>
    simp only [Pool.perform]
    split
    · -- The new reference is taken before the connection that had the name gives its own back.
      rename_i c q heq
      rw [← List.append_assoc]
      exact (hp.connect hroom heq).nameConnection name c
    · rename_i error q heq
      have hacquire := hp.acquire hroom b key
      unfold Pool.connect at heq
      split at heq
      · rename_i hfailed
        rw [hfailed] at hacquire
        cases heq
        exact hacquire.sweep
      · cases heq
  | close name => exact hp.closeConnection name
  | dropConnection name => exact hp.dropConnection name

/-! ## Runs -/

/-- The references to a cluster that were taken and not given back. -/
def outstanding (history : List RefEvent) (id : ClusterId) : Int :=
  (Tally.of history id).acquired - (Tally.of history id).released

/-- All along the calls, fewer references are outstanding than the count can hold. -/
def Roomy (b : Backend σ) (backend : σ) (calls : List PoolCall) : Prop :=
  ∀ before, before <+: calls → ∀ id, outstanding (run b backend before).1 id < 2147483647

theorem Sound.room {p : Pool σ} {history : List RefEvent} (hp : p.Sound history)
    (hfew : ∀ id, outstanding history id < 2147483647) : p.Room := by
  intro id h hid
  have hx := hp.account id (hp.lt_of_handle hid)
  rw [hid] at hx
  rcases hx.of_some with ⟨-, hcount, -⟩ | ⟨hm, -⟩
  · rw [hcount]
    exact hfew id
  · rw [hm]
    decide

theorem sound_run {b : Backend σ} {backend : σ} {calls : List PoolCall} (h : Roomy b backend calls) :
    (run b backend calls).2.Sound (run b backend calls).1 := by
  induction calls using List.reverseRecOn with
  | nil => exact sound_start backend
  | append_singleton calls call ih =>
    have hsound := ih fun before hbefore => h before (hbefore.trans (List.prefix_append calls [call]))
    have hroom := hsound.room (h calls (List.prefix_append calls [call]))
    rw [run_append_one]
    exact hsound.perform hroom b call

end Pool

end WideRow
