import WideRow.Proofs.Requests

/-!
# Requests that leave the rows alone

What a cursor replies without a move follows from where it stands, the row and the columns there,
the note on the last value and the options. The rows still to come have no part in it.
-/

namespace WideRow.Cursor

/-- Two cursors that differ at most in the rows still to come. -/
structure Unmoved (c d : Cursor) : Prop where
  position : c.position = d.position
  isClosed : c.isClosed = d.isClosed
  current? : c.current? = d.current?
  columns : c.columns = d.columns
  wasNull : c.wasNull = d.wasNull
  options : c.options = d.options

theorem cell_eq_of_current? (c : Cursor) (column : ColumnRef) : c.cell column =
    if c.isClosed then .error .cursorClosed
    else c.current?.elim (.error .noCurrentRow) fun row => do
      let i ← row.columns.resolve column
      return row.cell i := by
  unfold cell isClosed current?
  cases c.state <;> rfl

theorem Unmoved.refl (c : Cursor) : Unmoved c c := ⟨rfl, rfl, rfl, rfl, rfl, rfl⟩

section

variable {c d : Cursor} (h : Unmoved c d)
include h

theorem Unmoved.rowNumber : c.rowNumber = d.rowNumber := by
  unfold Cursor.rowNumber
  rw [h.position]

theorem Unmoved.answer (query : Query) : c.answer query = d.answer query := by
  cases query <;>
    simp only [Cursor.answer, Cursor.rowNumber, isBeforeFirst, isAfterLast, isFirst, h.position,
      h.isClosed, h.wasNull, h.options] <;> rfl

theorem Unmoved.cell (column : ColumnRef) : c.cell column = d.cell column := by
  rw [cell_eq_of_current?, cell_eq_of_current?, h.isClosed, h.current?]

theorem Unmoved.findColumn (name : String) : c.findColumn name = d.findColumn name := by
  unfold Cursor.findColumn ensureOpen
  rw [h.isClosed, h.current?, h.columns]

theorem Unmoved.metadata : c.metadata = d.metadata := by
  unfold Cursor.metadata
  rw [h.columns, h.options]

theorem Unmoved.withOptions (options : CursorOptions) :
    Unmoved (c.withOptions options) (d.withOptions options) :=
  ⟨h.position, h.isClosed, h.current?, h.columns, h.wasNull, rfl⟩

theorem Unmoved.get {α : Type} (column : ColumnRef) (read : Cell → Result α) :
    (c.get column read).1 = (d.get column read).1 ∧
      Unmoved (c.get column read).2 (d.get column read).2 := by
  unfold Cursor.get
  rw [h.cell]
  cases d.cell column with
  | error error => exact ⟨rfl, h⟩
  | ok cell => exact ⟨rfl, h.position, h.isClosed, h.current?, h.columns, rfl, h.options⟩

theorem Unmoved.setFetchDirection (direction : FetchDirection) :
    (c.setFetchDirection direction).1 = (d.setFetchDirection direction).1 ∧
      Unmoved (c.setFetchDirection direction).2 (d.setFetchDirection direction).2 := by
  unfold Cursor.setFetchDirection ensureOpen
  rw [h.isClosed, h.options]
  cases d.isClosed with
  | true => exact ⟨rfl, h⟩
  | false =>
    simp only [Bool.false_eq_true, if_false]
    by_cases hrefused : d.options.cursorType = .forwardOnly ∧ direction ≠ .forward
    · rw [if_pos hrefused, if_pos hrefused]
      exact ⟨rfl, h⟩
    · rw [if_neg hrefused, if_neg hrefused]
      exact ⟨rfl, h.withOptions _⟩

theorem Unmoved.setFetchSize (size : Int32) :
    (c.setFetchSize size).1 = (d.setFetchSize size).1 ∧
      Unmoved (c.setFetchSize size).2 (d.setFetchSize size).2 := by
  unfold Cursor.setFetchSize ensureOpen
  rw [h.isClosed, h.options]
  cases d.isClosed with
  | true => exact ⟨rfl, h⟩
  | false =>
    simp only [Bool.false_eq_true, if_false]
    by_cases hrefused : size < 0
    · rw [if_pos hrefused, if_pos hrefused]
      exact ⟨rfl, h⟩
    · rw [if_neg hrefused, if_neg hrefused]
      exact ⟨rfl, h.withOptions _⟩

theorem Unmoved.serve {request : Request} (hquiet : request.IsQuiet) :
    (c.serve request).1 = (d.serve request).1 ∧
      Unmoved (c.serve request).2 (d.serve request).2 := by
  cases request with
  | query query => exact ⟨h.answer query, h⟩
  | close => exact hquiet.elim
  | call call =>
    cases call with
    | next => exact hquiet.elim
    | isLast => exact hquiet.elim
    | get column read => exact h.get column read
    | findColumn name => exact ⟨h.findColumn name, h⟩
    | metadata => exact ⟨h.metadata, h⟩
    | moveTo move => exact ⟨rfl, h⟩
    | setFetchDirection direction => exact h.setFetchDirection direction
    | setFetchSize size => exact h.setFetchSize size

theorem Unmoved.replies {requests : List Request} (hquiet : ∀ request ∈ requests, request.IsQuiet) :
    c.replies requests = d.replies requests := by
  induction requests generalizing c d with
  | nil => rfl
  | cons request requests ih =>
    obtain ⟨hreply, hleft⟩ := h.serve (hquiet request List.mem_cons_self)
    have hrest := ih hleft fun r hr => hquiet r (List.mem_cons_of_mem _ hr)
    rw [Cursor.replies, Cursor.replies, hreply, hrest]

end

theorem state_run (c : Cursor) {requests : List Request}
    (hquiet : ∀ request ∈ requests, request.IsQuiet) : (c.run requests).state = c.state := by
  induction requests generalizing c with
  | nil => rfl
  | cons request requests ih =>
    rw [run_cons, ih _ fun r hr => hquiet r (List.mem_cons_of_mem _ hr),
      state_serve c (hquiet request List.mem_cons_self)]

end WideRow.Cursor
