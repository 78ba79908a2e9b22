import Mathlib.Data.List.Induction
import WideRow.Proofs.Pulls

/-!
# The life of a cursor

A cursor goes from before the first row over the rows to after the last, by calls of `next` that
succeed and by nothing else, and stays there. Closing it ends everything at once.
-/

namespace WideRow

/-- What a `next` that succeeds does to the position, and whether it tells of a row. -/
inductive Moves : Position → Bool → Position → Prop
  | toFirst : Moves .beforeFirst true (.onRow 1)
  | toNext (number : Nat) : Moves (.onRow number) true (.onRow (number + 1))
  | pastNone : Moves .beforeFirst false .afterLast
  | pastLast (number : Nat) : Moves (.onRow number) false .afterLast
  | stay : Moves .afterLast false .afterLast

theorem Moves.eq_of_afterLast {moved : Bool} {p : Position} (h : Moves .afterLast moved p) :
    p = .afterLast := by
  cases h
  rfl

theorem Moves.eq_of_false {p q : Position} (h : Moves p false q) : q = .afterLast := by
  cases h <;> rfl

namespace Cursor

/-- The row that was read before its turn. -/
def ahead? (c : Cursor) : Option Row :=
  match c.state with
  | .onRow _ _ ahead _ => ahead
  | _ => none

/-- Whether the cursor is open and stands on a row. -/
def IsOnRow (c : Cursor) : Prop :=
  (∃ number, c.position = .onRow number) ∧ c.isClosed = false

/-- Whether the cursor has no rows left to ask for. -/
def IsOver (c : Cursor) : Prop :=
  c.position = .afterLast ∨ c.isClosed = true

/-- Every call that needs an open cursor is an error, and changes nothing. -/
structure Refuses (c : Cursor) : Prop where
  next : c.next = (.error .cursorClosed, c)
  isLast : c.isLast = (.error .cursorClosed, c)
  get {α : Type} (column : ColumnRef) (read : Cell → Result α) :
    c.get column read = (.error .cursorClosed, c)
  findColumn (name : String) : c.serve (.call (.findColumn name)) = (.error .cursorClosed, c)
  setFetchDirection (direction : FetchDirection) :
    c.setFetchDirection direction = (.error .cursorClosed, c)
  setFetchSize (size : Int32) : c.setFetchSize size = (.error .cursorClosed, c)

/-- The rules that a cursor keeps in each of its states. -/
structure Lawful (c : Cursor) : Prop where
  current : c.current?.isSome = true ↔ c.IsOnRow
  ahead : c.ahead?.isSome = true → c.IsOnRow
  moves (moved : Bool) (h : c.next.1 = .ok moved) : Moves c.position moved c.next.2.position
  rests (request : Request) (h : (c.serve request).2.position ≠ c.position) :
    request = .call .next ∧ ∃ moved, c.next.1 = .ok moved
  ended (h : c.next.1 = .ok false) (later : List Request) :
    (c.next.2.run later).position = .afterLast ∧
      ((c.next.2.run later).isClosed = false → (c.next.2.run later).next.1 = .ok false)
  closed (later : List Request) : c.close.run later = c.close ∧ c.close.Refuses
  random (move : RandomMove) :
    c.serve (.call (.moveTo move)) = (.error (.featureNotSupported move.feature), c)

/-! ## Rows -/

theorem current_iff (c : Cursor) : c.current?.isSome = true ↔ c.IsOnRow := by
  obtain ⟨state, columns, wasNull, options⟩ := c
  unfold IsOnRow
  cases state <;> simp [current?, position, isClosed]

theorem isClosed_of_current {c : Cursor} {row : Row} (h : c.current? = some row) :
    c.isClosed = false :=
  ((current_iff c).mp (by rw [h]; rfl)).2

theorem isOnRow_of_ahead {c : Cursor} (h : c.ahead?.isSome = true) : c.IsOnRow := by
  obtain ⟨state, columns, wasNull, options⟩ := c
  unfold IsOnRow
  cases state <;> simp_all [ahead?, position, isClosed]

/-! ## Positions -/

theorem position_congr {c d : Cursor} (h : d.state = c.state) : d.position = c.position := by
  unfold position
  rw [h]

section

variable {c : Cursor} {number : Nat} {rest : ConcatSource} {stay : ConcatSource → CursorState}

theorem moves_advance {moved : Bool} (h : (c.advance number rest stay).1 = .ok moved)
    (hrow : Moves c.position true (.onRow number)) (hend : Moves c.position false .afterLast) :
    Moves c.position moved (c.advance number rest stay).2.position := by
  unfold advance at h ⊢
  split at h
  · cases h
  · cases h
    exact hrow
  · cases h
    exact hend

theorem position_advance {error : ClientError} (h : (c.advance number rest stay).1 = .error error)
    (hstay : ∀ left, (c.withState (stay left)).position = c.position) :
    (c.advance number rest stay).2.position = c.position := by
  unfold advance at h ⊢
  split at h
  · exact hstay _
  · cases h
  · cases h

end

section

variable {c : Cursor}

theorem moves_next {moved : Bool} (h : c.next.1 = .ok moved) :
    Moves c.position moved c.next.2.position := by
  obtain ⟨state, columns, wasNull, options⟩ := c
  cases state with
  | beforeFirst rest => exact moves_advance h .toFirst .pastNone
  | onRow number row ahead rest =>
    cases ahead with
    | none => exact moves_advance h (.toNext number) (.pastLast number)
    | some following =>
      cases h
      exact .toNext number
  | afterLast =>
    cases h
    exact .stay
  | closed position => cases h

theorem position_next_of_error {error : ClientError} (h : c.next.1 = .error error) :
    c.next.2.position = c.position := by
  obtain ⟨state, columns, wasNull, options⟩ := c
  cases state with
  | beforeFirst rest => exact position_advance h fun _ => rfl
  | onRow number row ahead rest =>
    cases ahead with
    | none => exact position_advance h fun _ => rfl
    | some following => cases h
  | afterLast => cases h
  | closed position => rfl

theorem position_isLast (c : Cursor) : c.isLast.2.position = c.position := by
  unfold isLast
  split
  · rfl
  · rename_i hstate
    split <;> simp [position, withState, hstate]
  · rfl

theorem ok_of_position_ne {request : Request} (h : (c.serve request).2.position ≠ c.position) :
    request = .call .next ∧ ∃ moved, c.next.1 = .ok moved := by
  rcases request.kinds with rfl | rfl | rfl | hquiet
  · cases hreply : c.next.1 with
    | ok moved => exact ⟨rfl, moved, rfl⟩
    | error error => exact absurd (position_next_of_error hreply) h
  · exact absurd (position_isLast c) h
  · exact absurd rfl h
  · exact absurd (position_congr (state_serve c hquiet)) h

/-! ## Numbers of rows -/

theorem number_serve {bound number : Nat} (hbound : ∀ n, c.position = .onRow n → n ≤ bound)
    {request : Request} (h : (c.serve request).2.position = .onRow number) : number ≤ bound + 1 := by
  by_cases hsame : (c.serve request).2.position = c.position
  · exact Nat.le_succ_of_le (hbound number (hsame.symm.trans h))
  · obtain ⟨rfl, moved, hmoved⟩ := ok_of_position_ne hsame
    have hmoves := moves_next hmoved
    change c.next.2.position = _ at h
    rw [h] at hmoves
    generalize c.position = before at hbound hmoves
    cases hmoves with
    | toFirst => exact Nat.succ_le_succ (Nat.zero_le bound)
    | toNext number => exact Nat.succ_le_succ (hbound number rfl)

/-- It takes many requests to count far. -/
theorem number_run (output : QueryOutput) (options : CursorOptions) (requests : List Request)
    {number : Nat} (h : ((ofOutput output options).run requests).position = .onRow number) :
    number ≤ requests.length := by
  induction requests using List.reverseRecOn generalizing number with
  | nil => cases h
  | append_singleton requests request ih =>
    rw [List.length_append, List.length_singleton]
    rw [run, List.foldl_append] at h
    exact number_serve (fun n hn => ih hn) h

/-! ## After the last row -/

theorem position_serve_of_afterLast (h : c.position = .afterLast) (request : Request) :
    (c.serve request).2.position = .afterLast := by
  by_cases hsame : (c.serve request).2.position = c.position
  · rw [hsame, h]
  · obtain ⟨rfl, moved, hmoved⟩ := ok_of_position_ne hsame
    have hmoves := moves_next hmoved
    rw [h] at hmoves
    exact hmoves.eq_of_afterLast

theorem position_run_of_afterLast (h : c.position = .afterLast) (requests : List Request) :
    (c.run requests).position = .afterLast := by
  induction requests generalizing c with
  | nil => exact h
  | cons request requests ih => exact ih (position_serve_of_afterLast h request)

theorem next_of_afterLast (h : c.position = .afterLast) (hopen : c.isClosed = false) :
    c.next.1 = .ok false := by
  obtain ⟨state, columns, wasNull, options⟩ := c
  cases state with
  | afterLast => rfl
  | beforeFirst rest => cases h
  | onRow number row ahead rest => cases h
  | closed position => cases hopen

theorem ended_run (h : c.next.1 = .ok false) (later : List Request) :
    (c.next.2.run later).position = .afterLast ∧
      ((c.next.2.run later).isClosed = false → (c.next.2.run later).next.1 = .ok false) := by
  have hlater := position_run_of_afterLast (moves_next h).eq_of_false later
  exact ⟨hlater, next_of_afterLast hlater⟩

/-! ## Once closed -/

theorem exists_closed (h : c.isClosed = true) : ∃ position, c.state = .closed position := by
  unfold isClosed at h
  split at h
  · rename_i position heq
    exact ⟨position, heq⟩
  · cases h

theorem refuses_of_closed (h : c.isClosed = true) : c.Refuses := by
  obtain ⟨position, hstate⟩ := exists_closed h
  refine ⟨?_, ?_, ?_, ?_, ?_, ?_⟩
  · simp [next, hstate]
  · simp [isLast, hstate]
  · intro α column read
    simp [get, cell, hstate]
  · intro name
    simp [serve, findColumn, ensureOpen, h, bind, Except.bind]
  · intro direction
    simp [setFetchDirection, ensureOpen, h]
  · intro size
    simp [setFetchSize, ensureOpen, h]

theorem close_of_closed (h : c.isClosed = true) : c.close = c := by
  obtain ⟨state, columns, wasNull, options⟩ := c
  obtain ⟨position, rfl⟩ := exists_closed h
  rfl

theorem serve_of_closed (h : c.isClosed = true) (request : Request) : (c.serve request).2 = c := by
  have hrefuses := refuses_of_closed h
  cases request with
  | query query => rfl
  | close => exact close_of_closed h
  | call call =>
    cases call with
    | next => exact congrArg Prod.snd hrefuses.next
    | isLast => exact congrArg Prod.snd hrefuses.isLast
    | get column read => exact congrArg Prod.snd (hrefuses.get column read)
    | setFetchDirection direction =>
      exact congrArg Prod.snd (hrefuses.setFetchDirection direction)
    | setFetchSize size => exact congrArg Prod.snd (hrefuses.setFetchSize size)
    | findColumn name => rfl
    | metadata => rfl
    | moveTo move => rfl

theorem run_of_closed (h : c.isClosed = true) (requests : List Request) : c.run requests = c := by
  induction requests with
  | nil => rfl
  | cons request requests ih => rw [run_cons, serve_of_closed h, ih]

/-! ## In every state -/

theorem lawful (c : Cursor) : c.Lawful where
  current := current_iff c
  ahead := isOnRow_of_ahead
  moves _ h := moves_next h
  rests _ h := ok_of_position_ne h
  ended h later := ended_run h later
  closed later := ⟨run_of_closed rfl later, refuses_of_closed rfl⟩
  random _ := rfl

theorem IsOver.serve (h : c.IsOver) (request : Request) : (c.serve request).2.IsOver := by
  rcases h with hlast | hclosed
  · exact .inl (position_serve_of_afterLast hlast request)
  · rw [serve_of_closed hclosed]
    exact .inr hclosed

theorem IsOver.pulls (h : c.IsOver) (request : Request) : c.pulls request = [] := by
  obtain ⟨state, columns, wasNull, options⟩ := c
  unfold Cursor.pulls CursorRecord.pulls
  cases state with
  | beforeFirst rest => rcases h with h | h <;> cases h
  | onRow number row ahead rest => rcases h with h | h <;> cases h
  | afterLast => split <;> rfl
  | closed position => split <;> rfl

theorem IsOver.pullLog (h : c.IsOver) (requests : List Request) : c.pullLog requests = [] := by
  induction requests generalizing c with
  | nil => rfl
  | cons request requests ih => rw [pullLog_cons, h.pulls, ih (h.serve request), List.append_nil]

end

/-- Whatever is asked of it, and whatever its sources answer, a cursor stays lawful, and so does its
record: the two give the same replies, and the fields of the record fit together. It pulls its
sources in their order, none of them again once it has told its end, and none at all once the cursor
is after the last row or closed. -/
theorem lifecycle (output : QueryOutput) (options : CursorOptions) (requests : List Request) :
    ((ofOutput output options).run requests).Lawful ∧
      (CursorRecord.ofOutput output options).run requests =
        ((ofOutput output options).run requests).toRecord ∧
      ((CursorRecord.ofOutput output options).run requests).Consistent ∧
      (CursorRecord.ofOutput output options).replies requests =
        (ofOutput output options).replies requests ∧
      Pulled output.sources ((ofOutput output options).pullLog requests)
        ((ofOutput output options).run requests).held ∧
      ((ofOutput output options).pullLog requests).Pairwise
        (fun p q => p.answer = .ok none → q.behind ≠ p.behind) ∧
      (((ofOutput output options).run requests).IsOver →
        ∀ later, ((ofOutput output options).run requests).pullLog later = []) := by
  have hpulled := pulled_ofOutput output options requests
  have hrecord := run_toRecord (ofOutput output options) requests
  have hreplies := replies_toRecord (ofOutput output options) requests
  rw [toRecord_ofOutput] at hrecord hreplies
  refine ⟨lawful _, hrecord, ?_, hreplies, hpulled, hpulled.pairwise, fun h later => h.pullLog later⟩
  rw [hrecord]
  exact consistent_toRecord _

/-- The first source would go on after its end, and the second fails before its own. -/
theorem lifecycle_source_goes_on :
    let output : QueryOutput :=
      .multi [⟨[], [.values [], .finished, .values []]⟩, ⟨[], [.failure .connectionClosed]⟩]
    let c := ofOutput output .default
    let requests : List Request := [.call .next, .call .isLast, .call .next]
    (c.pullLog requests).map Pull.behind = [1, 1, 0, 0] ∧
      (c.run (requests.take 2)).position = .onRow 1 ∧ (c.run (requests.take 2)).ahead? = none ∧
      (c.run (requests.take 2)).next.1 = .ok false ∧ (c.run requests).IsOver ∧
      (c.run requests).position = .afterLast ∧ ∀ later, (c.run requests).pullLog later = [] := by
  intro output c requests
  have hover : (c.run requests).IsOver := .inl rfl
  obtain ⟨-, -, -, -, -, -, hnone⟩ := lifecycle output .default requests
  obtain ⟨hlawful, -⟩ := lifecycle output .default (requests.take 2)
  obtain ⟨hafter, -⟩ := hlawful.ended rfl []
  exact ⟨rfl, rfl, rfl, rfl, hover, hafter, hnone hover⟩

end Cursor

end WideRow
