import WideRow.Proofs.Access
import WideRow.Proofs.Lifecycle

/-!
# Calls that fail

An error takes nothing with it but itself. A move or a look ahead that meets one leaves the cursor
on its row, and the next move takes the item behind the error. A read that fails moves nothing, and
notes a null only if it has reached a cell.
-/

namespace WideRow

/-! ## What an error takes -/

/-- A call meets an error: the error comes off the front of what lies ahead, and all else stays. A
closed cursor has nothing ahead. -/
inductive Prospect.Stumbles : Prospect → ClientError → Prospect → Prop
  | closed (position : Position) : Stumbles (.closed position) .cursorClosed (.closed position)
  | beforeFirst (e : ClientError) (rest : List (Result Row)) :
      Stumbles (.beforeFirst (.error e :: rest)) e (.beforeFirst rest)
  | onRow (number : Nat) (row : Row) (e : ClientError) (rest : List (Result Row)) :
      Stumbles (.onRow number row (.error e :: rest)) e (.onRow number row rest)

/-- An open cursor with the row number given and the items given ahead of it. -/
inductive Prospect.Faces : Prospect → Nat → List (Result Row) → Prop
  | beforeFirst (todo : List (Result Row)) : Faces (.beforeFirst todo) 0 todo
  | onRow (number : Nat) (row : Row) (todo : List (Result Row)) :
      Faces (.onRow number row todo) number todo

theorem Prospect.Faces.next {p : Prospect} {number : Nat} {todo : List (Result Row)}
    (h : p.Faces number todo) : ∃ stay, p.next = take (number + 1) stay todo := by
  cases h with
  | beforeFirst => exact ⟨_, rfl⟩
  | onRow _ row => exact ⟨_, rfl⟩

theorem Prospect.Stumbles.cases {p q : Prospect} {e : ClientError} (h : Stumbles p e q) :
    (∃ position, p = .closed position ∧ e = .cursorClosed) ∨
      ∃ number rest, p.Faces number (.error e :: rest) ∧ q.Faces number rest := by
  cases h with
  | closed position => exact .inl ⟨position, rfl, rfl⟩
  | beforeFirst _ rest => exact .inr ⟨0, rest, .beforeFirst _, .beforeFirst _⟩
  | onRow number row _ rest => exact .inr ⟨number, rest, .onRow _ _ _, .onRow _ _ _⟩

theorem Prospect.take_error {number : Nat} {stay : List (Result Row) → Prospect}
    {todo : List (Result Row)} {e : ClientError} (h : (take number stay todo).1 = .error e) :
    ∃ rest, todo = .error e :: rest ∧ (take number stay todo).2 = stay rest := by
  match todo with
  | [] => cases h
  | .ok row :: rest => cases h
  | .error _ :: rest =>
    cases h
    exact ⟨rest, rfl, rfl⟩

theorem Prospect.stumbles_next {p : Prospect} {e : ClientError} (h : p.next.1 = .error e) :
    Stumbles p e p.next.2 := by
  cases p with
  | beforeFirst todo =>
    obtain ⟨rest, rfl, hleft⟩ := take_error h
    exact .beforeFirst e rest
  | onRow number row todo =>
    obtain ⟨rest, rfl, hleft⟩ := take_error h
    exact .onRow number row e rest
  | afterLast => cases h
  | closed position =>
    cases h
    exact .closed position

theorem Prospect.stumbles_isLast {p : Prospect} {e : ClientError} (h : p.isLast.1 = .error e) :
    Stumbles p e p.isLast.2 := by
  unfold isLast at h ⊢
  split at h
  · cases h
    exact .onRow _ _ _ _
  · cases h
  · cases h
    exact .closed _
  · cases h

/-! ## Where a cursor is among all items -/

/-- The items from here on, when `number` rows stand before them. -/
def From (items : List (Result Row)) (number : Nat) (todo : List (Result Row)) : Prop :=
  ∃ taken, items = taken ++ todo ∧ (goodRows taken).length = number

theorem From.row {items rest : List (Result Row)} {number : Nat} {row : Row}
    (h : From items number (.ok row :: rest)) : From items (number + 1) rest := by
  obtain ⟨taken, rfl, rfl⟩ := h
  refine ⟨taken ++ [.ok row], by simp, ?_⟩
  simp [goodRows, Except.toOption]

theorem From.error {items rest : List (Result Row)} {number : Nat} {e : ClientError}
    (h : From items number (.error e :: rest)) : From items number rest := by
  obtain ⟨taken, rfl, rfl⟩ := h
  refine ⟨taken ++ [.error e], by simp, ?_⟩
  simp [goodRows, Except.toOption]

/-- What lies ahead is what the rows moved to and the errors met have left of all items. -/
def Prospect.Placed (items : List (Result Row)) : Prospect → Prop
  | beforeFirst todo => From items 0 todo
  | onRow number _ todo => From items number todo
  | afterLast | closed _ => True

theorem Prospect.Placed.of_faces {items todo : List (Result Row)} {p : Prospect} {number : Nat}
    (h : p.Placed items) (hfaces : p.Faces number todo) : From items number todo := by
  cases hfaces <;> exact h

namespace Cursor

section

variable {items : List (Result Row)}

theorem placed_take {number : Nat} {stay : List (Result Row) → Prospect} {todo : List (Result Row)}
    (hstay : ∀ rest, From items number rest → (stay rest).Placed items)
    (h : From items number todo) : (Prospect.take (number + 1) stay todo).2.Placed items := by
  match todo with
  | [] => trivial
  | .ok row :: rest => exact h.row
  | .error e :: rest => exact hstay rest h.error

theorem placed_next {p : Prospect} (h : p.Placed items) : p.next.2.Placed items := by
  cases p with
  | beforeFirst todo => exact placed_take (fun _ h => h) h
  | onRow number row todo => exact placed_take (fun _ h => h) h
  | afterLast => trivial
  | closed position => trivial

theorem placed_isLast {p : Prospect} (h : p.Placed items) : p.isLast.2.Placed items := by
  unfold Prospect.isLast
  split
  · exact h.error
  · exact h
  · trivial
  · exact h

theorem placed_run {c : Cursor} (h : c.prospect.Placed items) (requests : List Request) :
    (c.run requests).prospect.Placed items :=
  prospect_run (fun _ => placed_next) (fun _ => placed_isLast) (fun _ => trivial) h requests

end

/-! ## Moves that fail -/

/-- A move takes the first of the items. -/
inductive Proceeds (number : Nat) : List (Result Row) → Result Bool → Cursor → Prop
  | row {row : Row} {rest : List (Result Row)} {c : Cursor}
      (hposition : c.position = .onRow (number + 1)) (hcurrent : c.current? = some row) :
      Proceeds number (.ok row :: rest) (.ok true) c
  | failure {e : ClientError} {rest : List (Result Row)} {c : Cursor} :
      Proceeds number (.error e :: rest) (.error e) c
  | ended {c : Cursor} (hposition : c.position = .afterLast) : Proceeds number [] (.ok false) c

/-- The error `e` was the item after `taken`, and `rest` is still to come: nothing between the rows
that were moved to and the error was skipped, and nothing behind it is. -/
structure Resumes (items taken rest : List (Result Row)) (c d : Cursor) (e : ClientError) :
    Prop where
  items_eq : items = taken ++ .error e :: rest
  delivered : (goodRows taken).length = c.rowNumber
  ahead : c.ahead? = none
  proceeds (requests : List Request) (hquiet : ∀ request ∈ requests, request.IsQuiet) :
    Proceeds c.rowNumber rest (d.run requests).next.1 (d.run requests).next.2
  log (calls : List Call) :
    ∃ n m, d.log calls = (numbered c.rowNumber rest).take n ++ List.replicate m .ended ∧
      (0 < m → rest.length ≤ n)

/-- What a call that failed with `e` has left of the cursor `c`. -/
structure FailsInPlace (items : List (Result Row)) (c d : Cursor) (e : ClientError) : Prop where
  unmoved : Unmoved c d
  rowNumber : d.rowNumber = c.rowNumber
  replies (requests : List Request) (hquiet : ∀ request ∈ requests, request.IsQuiet) :
    d.replies requests = c.replies requests
  cause : (c.isClosed = true ∧ e = .cursorClosed ∧ d = c) ∨
    (c.isClosed = false ∧ ∃ taken rest, Resumes items taken rest c d e)

theorem unmoved_of_stumbles {c d : Cursor} {e : ClientError} (hd : d = c.withState d.state)
    (h : c.prospect.Stumbles e d.prospect) : Unmoved c d := by
  have hplace : c.position = d.position ∧ c.isClosed = d.isClosed ∧ c.current? = d.current? := by
    rw [position_eq c, position_eq d, isClosed_eq c, isClosed_eq d, current?_eq c, current?_eq d]
    generalize c.prospect = p at h ⊢
    generalize d.prospect = q at h ⊢
    cases h <;> exact ⟨rfl, rfl, rfl⟩
  obtain ⟨hposition, hclosed, hcurrent⟩ := hplace
  exact ⟨hposition, hclosed, hcurrent, (congrArg Cursor.columns hd).symm,
    (congrArg Cursor.wasNull hd).symm, (congrArg Cursor.options hd).symm⟩

section

variable {c : Cursor} {number : Nat} {todo : List (Result Row)}

theorem rowNumber_of_faces (h : c.prospect.Faces number todo) : c.rowNumber = number := by
  unfold rowNumber
  rw [position_eq]
  generalize c.prospect = p at h ⊢
  cases h <;> rfl

theorem isClosed_of_faces (h : c.prospect.Faces number todo) : c.isClosed = false := by
  rw [isClosed_eq]
  generalize c.prospect = p at h ⊢
  cases h <;> rfl

theorem stands_of_faces (h : c.prospect.Faces number todo) : c.Stands number todo := by
  unfold prospect at h
  unfold Stands
  cases hstate : c.state <;> rw [hstate] at h <;> cases h <;> exact ⟨rfl, rfl⟩

theorem ahead_of_faces {e : ClientError} {rest : List (Result Row)}
    (h : c.prospect.Faces number (.error e :: rest)) : c.ahead? = none := by
  unfold prospect at h
  unfold ahead?
  cases hstate : c.state with
  | onRow number row ahead source =>
    rw [hstate] at h
    cases ahead with
    | none => rfl
    | some row => cases h
  | _ => rfl

theorem proceeds_of_faces (h : c.prospect.Faces number todo) :
    Proceeds number todo c.next.1 c.next.2 := by
  obtain ⟨stay, hnext⟩ := h.next
  have hleft := prospect_next c
  rw [hnext] at hleft
  rw [next_eq, hnext]
  match todo with
  | [] => exact .ended (by rw [position_eq, hleft]; rfl)
  | .ok row :: rest =>
    exact .row (by rw [position_eq, hleft]; rfl) (by rw [current?_eq, hleft]; rfl)
  | .error e :: rest => exact .failure

end

theorem resumes_of_faces {items rest : List (Result Row)} {c d : Cursor} {number : Nat}
    {e : ClientError} (hplaced : c.prospect.Placed items)
    (hc : c.prospect.Faces number (.error e :: rest)) (hd : d.prospect.Faces number rest) :
    ∃ taken, Resumes items taken rest c d e := by
  obtain ⟨taken, hitems, hrows⟩ := hplaced.of_faces hc
  have hnumber := rowNumber_of_faces hc
  refine ⟨taken, hitems, by rw [hrows, hnumber], ahead_of_faces hc, fun requests hquiet => ?_, ?_⟩
  · rw [hnumber]
    apply proceeds_of_faces
    rwa [prospect_congr (state_run d hquiet)]
  · rw [hnumber]
    exact log_of_stands (stands_of_faces hd)

theorem failsInPlace_of_stumbles {items : List (Result Row)} {c d : Cursor} {e : ClientError}
    (hplaced : c.prospect.Placed items) (hd : d = c.withState d.state)
    (h : c.prospect.Stumbles e d.prospect) (hclosed : c.isClosed = true → d = c) :
    FailsInPlace items c d e := by
  have hunmoved := unmoved_of_stumbles hd h
  refine ⟨hunmoved, hunmoved.rowNumber.symm, fun requests hquiet => (hunmoved.replies hquiet).symm, ?_⟩
  rcases h.cases with ⟨position, hc, rfl⟩ | ⟨number, rest, hc, hd⟩
  · have hc' : c.isClosed = true := by rw [isClosed_eq, hc]
    exact .inl ⟨hc', rfl, hclosed hc'⟩
  · obtain ⟨taken, hresumes⟩ := resumes_of_faces hplaced hc hd
    exact .inr ⟨isClosed_of_faces hc, taken, rest, hresumes⟩

theorem failsInPlace_next {items : List (Result Row)} {c : Cursor} {e : ClientError}
    (hplaced : c.prospect.Placed items) (h : c.next.1 = .error e) :
    FailsInPlace items c c.next.2 e := by
  rw [next_eq] at h
  refine failsInPlace_of_stumbles hplaced (withState_next c) ?_ fun hclosed => ?_
  · rw [prospect_next]
    exact Prospect.stumbles_next h
  · exact congrArg Prod.snd (refuses_of_closed hclosed).next

theorem failsInPlace_isLast {items : List (Result Row)} {c : Cursor} {e : ClientError}
    (hplaced : c.prospect.Placed items) (h : c.isLast.1 = .error e) :
    FailsInPlace items c c.isLast.2 e := by
  rw [isLast_eq] at h
  refine failsInPlace_of_stumbles hplaced (withState_isLast c) ?_ fun hclosed => ?_
  · rw [prospect_isLast]
    exact Prospect.stumbles_isLast h
  · exact congrArg Prod.snd (refuses_of_closed hclosed).isLast

/-! ## Reads that fail -/

/-- A read of the column reaches no cell, for the reason given. -/
inductive Unreached (c : Cursor) (column : ColumnRef) : ClientError → Prop
  | closed (hclosed : c.isClosed = true) : Unreached c column .cursorClosed
  | noRow (hopen : c.isClosed = false) (hcurrent : c.current? = none) :
      Unreached c column .noCurrentRow
  | unresolved {row : Row} {e : ClientError} (hcurrent : c.current? = some row)
      (hresolve : row.columns.resolve column = .error e) : Unreached c column e

/-- What a read that failed with `e` has left of the cursor `c`. -/
structure ReadFailsInPlace (c d : Cursor) (column : ColumnRef) (e : ClientError) : Prop where
  position : d.position = c.position
  rowNumber : d.rowNumber = c.rowNumber
  current? : d.current? = c.current?
  unreached {cause : ClientError} (h : Unreached c column cause) : e = cause ∧ d = c

theorem cell_of_unreached {c : Cursor} {column : ColumnRef} {cause : ClientError}
    (h : Unreached c column cause) : c.cell column = .error cause := by
  rw [cell_eq_of_current?]
  cases h with
  | closed hclosed => rw [if_pos hclosed]
  | noRow hopen hcurrent => simp [hopen, hcurrent]
  | unresolved hcurrent hresolve =>
    simp only [isClosed_of_current hcurrent, hcurrent, hresolve, Bool.false_eq_true, if_false, Option.elim_some]
    rfl

theorem readFailsInPlace {α : Type} {c : Cursor} {column : ColumnRef} {read : Cell → Result α}
    {e : ClientError} (h : (c.get column read).1 = .error e) :
    ReadFailsInPlace c (c.get column read).2 column e := by
  have hstate := state_get c column read
  have hposition := position_congr hstate
  refine ⟨hposition, by rw [rowNumber, rowNumber, hposition], ?_, fun hunreached => ?_⟩
  · unfold current?
    rw [hstate]
  · unfold get at h ⊢
    rw [cell_of_unreached hunreached] at h ⊢
    cases h
    exact ⟨rfl, rfl⟩

/-- In every state that requests can bring about: a move or a look ahead that fails leaves the
cursor where it was, with the same reply to everything but moves, and the next move takes the item
behind the error; and a read that fails moves nothing, and changes nothing at all if it reached no
cell. -/
theorem failed_calls_in_place (output : QueryOutput) (options : CursorOptions)
    (requests : List Request) :
    let c := (ofOutput output options).run requests
    (∀ e, c.next.1 = .error e → FailsInPlace output.items c c.next.2 e) ∧
    (∀ e, c.isLast.1 = .error e → FailsInPlace output.items c c.isLast.2 e) ∧
    ∀ {α : Type} (column : ColumnRef) (read : Cell → Result α) (e : ClientError),
      (c.get column read).1 = .error e → ReadFailsInPlace c (c.get column read).2 column e := by
  intro c
  have hstart : (ofOutput output options).prospect.Placed output.items :=
    ⟨[], output.items_eq, rfl⟩
  have hplaced : c.prospect.Placed output.items := placed_run hstart requests
  exact ⟨fun e h => failsInPlace_next hplaced h, fun e h => failsInPlace_isLast hplaced h,
    fun column read e h => readFailsInPlace h⟩

/-- A source fails between two rows, and the first of them cannot be read. -/
theorem failed_calls_in_place_between_rows :
    let column : Column := ⟨"ks", "t", "n", .scalar .int⟩
    let output : QueryOutput :=
      .multi [⟨[column], [.values [some [7]], .failure .connectionClosed]⟩,
        ⟨[column], [.values [none]]⟩]
    let c := (ofOutput output .default).run [.call .next]
    let width : ClientError := .decode "int" (.width 4 1)
    FailsInPlace output.items c c.next.2 .connectionClosed ∧
      FailsInPlace output.items c c.isLast.2 .connectionClosed ∧ c.isLast.2.next.1 = .ok true ∧
      ReadFailsInPlace c (c.get (.position 1) Cell.object).2 (.position 1) width ∧
      ReadFailsInPlace c (c.get (.position 2) Cell.object).2 (.position 2)
        (.columnIndexOutOfRange 2 1) := by
  intro column output c width
  obtain ⟨hnext, hlast, hread⟩ := failed_calls_in_place output .default [.call .next]
  exact ⟨hnext _ rfl, hlast _ rfl, rfl, hread _ _ _ rfl, hread _ _ _ rfl⟩

end Cursor

end WideRow
