import WideRow.Cursor.Record
import WideRow.Proofs.Requests

/-!
# A cursor and its record

The fields of a cursor's record are what its state tells. Every request gets the same reply from a
cursor and from its record, and leaves a cursor and its record.
-/

namespace WideRow

/-! ## Requests to a record -/

namespace CursorRecord

def answer (r : CursorRecord) : (query : Query) → query.Reply
  | .position => r.position
  | .rowNumber =>
    match r.position with
    | .beforeFirst => (0 : Nat)
    | .onRow number => number
    | .afterLast => Cursor.afterLastRow
  | .isBeforeFirst => r.position == .beforeFirst
  | .isAfterLast => r.position == .afterLast
  | .isFirst => r.position == .onRow 1
  | .isClosed => r.closed
  | .wasNull => r.wasNull
  | .fetchDirection => r.options.fetchDirection
  | .fetchSize => r.options.fetchSize
  | .cursorType => r.options.cursorType

def serve (r : CursorRecord) : (request : Request) → request.Reply × CursorRecord
  | .call .next => r.next
  | .call .isLast => r.isLast
  | .call (.get column read) => r.get column read
  | .call (.findColumn name) => (r.findColumn name, r)
  | .call .metadata => ((⟨r.columns, r.options.catalog.getD ""⟩ : Metadata), r)
  | .call (.moveTo move) => ((.error (.featureNotSupported move.feature) : Result Bool), r)
  | .call (.setFetchDirection direction) => r.setFetchDirection direction
  | .call (.setFetchSize size) => r.setFetchSize size
  | .query q => (r.answer q, r)
  | .close => ((), r.close)

def run (r : CursorRecord) (requests : List Request) : CursorRecord :=
  requests.foldl (fun r request => (r.serve request).2) r

def replies (r : CursorRecord) : List Request → List (Σ request : Request, request.Reply)
  | [] => []
  | request :: requests => ⟨request, (r.serve request).1⟩ :: (r.serve request).2.replies requests

/-- The fields of a record fit together. -/
structure Consistent (r : CursorRecord) : Prop where
  current : r.current.isSome = true ↔ (∃ number, r.position = .onRow number) ∧ r.closed = false
  lookahead : r.lookahead.isSome = true → (∃ number, r.position = .onRow number) ∧ r.closed = false
  source : r.source.isSome = true ↔ r.position ≠ .afterLast ∧ r.closed = false

end CursorRecord

namespace Cursor

/-! ## The record of a cursor -/

def toRecord (c : Cursor) : CursorRecord :=
  match c.state with
  | .beforeFirst rest =>
    ⟨some rest, c.columns, .beforeFirst, none, none, c.wasNull, c.options, false⟩
  | .onRow number row ahead rest =>
    ⟨some rest, c.columns, .onRow number, some row, ahead, c.wasNull, c.options, false⟩
  | .afterLast => ⟨none, c.columns, .afterLast, none, none, c.wasNull, c.options, false⟩
  | .closed position => ⟨none, c.columns, position, none, none, c.wasNull, c.options, true⟩

theorem consistent_toRecord (c : Cursor) : c.toRecord.Consistent := by
  obtain ⟨state, columns, wasNull, options⟩ := c
  cases state <;> exact ⟨by simp [toRecord], by simp [toRecord], by simp [toRecord]⟩

theorem toRecord_ofOutput (output : QueryOutput) (options : CursorOptions) :
    (ofOutput output options).toRecord = .ofOutput output options := rfl

section

variable (c : Cursor)

theorem columns_toRecord : c.toRecord.columns = c.columns := by
  unfold toRecord
  split <;> rfl

theorem position_toRecord : c.toRecord.position = c.position := by
  unfold toRecord position
  cases c.state <;> rfl

theorem current_toRecord : c.toRecord.current = c.current? := by
  unfold toRecord current?
  cases c.state <;> rfl

theorem wasNull_toRecord : c.toRecord.wasNull = c.wasNull := by
  unfold toRecord
  split <;> rfl

theorem options_toRecord : c.toRecord.options = c.options := by
  unfold toRecord
  split <;> rfl

theorem closed_toRecord : c.toRecord.closed = c.isClosed := by
  unfold toRecord isClosed
  cases c.state <;> rfl

theorem ensureOpen_toRecord : c.toRecord.ensureOpen = c.ensureOpen := by
  rw [CursorRecord.ensureOpen, ensureOpen, closed_toRecord]

theorem toRecord_withOptions (options : CursorOptions) :
    (c.withOptions options).toRecord = { c.toRecord with options := options } := by
  unfold toRecord withOptions
  cases c.state <;> rfl

/-! ## Moving -/

theorem next_toRecord : c.toRecord.next = (c.next.1, c.next.2.toRecord) := by
  obtain ⟨state, columns, wasNull, options⟩ := c
  unfold toRecord next CursorRecord.next
  cases state with
  | beforeFirst rest =>
    simp only [CursorRecord.ensureOpen, CursorRecord.moveOn, CursorRecord.pull,
      CursorRecord.pullSource, advance, withState, Bool.false_eq_true, if_false]
    rcases rest.pull with ⟨_ | _ | row, left⟩ <;> rfl
  | onRow number row ahead rest =>
    rcases ahead with _ | following
    · simp only [CursorRecord.ensureOpen, CursorRecord.moveOn, CursorRecord.pull,
        CursorRecord.pullSource, advance, withState, Bool.false_eq_true, if_false]
      rcases rest.pull with ⟨_ | _ | row, left⟩ <;> rfl
    · rfl
  | afterLast => rfl
  | closed position => rfl

theorem isLast_toRecord : c.toRecord.isLast = (c.isLast.1, c.isLast.2.toRecord) := by
  obtain ⟨state, columns, wasNull, options⟩ := c
  unfold toRecord isLast CursorRecord.isLast
  cases state with
  | beforeFirst rest => rfl
  | onRow number row ahead rest =>
    rcases ahead with _ | following
    · simp only [CursorRecord.ensureOpen, CursorRecord.pullSource, withState, Bool.false_eq_true,
        if_false]
      rcases rest.pull with ⟨_ | _, left⟩ <;> rfl
    · rfl
  | afterLast => rfl
  | closed position => rfl

theorem close_toRecord : c.toRecord.close = c.close.toRecord := by
  unfold close withState CursorRecord.close
  rw [position, toRecord, toRecord]
  cases c.state <;> rfl

/-! ## Columns -/

theorem cell_toRecord (column : ColumnRef) : c.toRecord.cell column = c.cell column := by
  unfold CursorRecord.cell cell
  rw [ensureOpen_toRecord, current_toRecord]
  unfold ensureOpen isClosed current?
  cases c.state <;> rfl

theorem get_toRecord {α : Type} (column : ColumnRef) (read : Cell → Result α) :
    c.toRecord.get column read = ((c.get column read).1, (c.get column read).2.toRecord) := by
  unfold CursorRecord.get get
  rw [cell_toRecord]
  rcases c.cell column with error | cell
  · rfl
  · unfold toRecord
    cases c.state <;> rfl

theorem findColumn_toRecord (name : String) : c.toRecord.findColumn name = c.findColumn name := by
  unfold CursorRecord.findColumn findColumn
  rw [ensureOpen_toRecord, current_toRecord, columns_toRecord]

/-! ## Options -/

theorem setFetchDirection_toRecord (direction : FetchDirection) :
    c.toRecord.setFetchDirection direction =
      ((c.setFetchDirection direction).1, (c.setFetchDirection direction).2.toRecord) := by
  unfold CursorRecord.setFetchDirection setFetchDirection
  rw [ensureOpen_toRecord, options_toRecord]
  rcases c.ensureOpen with error | _
  · rfl
  · by_cases hother : c.options.cursorType = .forwardOnly ∧ direction ≠ .forward
    · simp only [if_pos hother]
    · simp only [if_neg hother, toRecord_withOptions]

theorem setFetchSize_toRecord (size : Int32) :
    c.toRecord.setFetchSize size = ((c.setFetchSize size).1, (c.setFetchSize size).2.toRecord) := by
  unfold CursorRecord.setFetchSize setFetchSize
  rw [ensureOpen_toRecord, options_toRecord]
  rcases c.ensureOpen with error | _
  · rfl
  · by_cases hnegative : size < 0
    · simp only [if_pos hnegative]
    · simp only [if_neg hnegative, toRecord_withOptions]

/-! ## Any requests -/

theorem answer_toRecord (query : Query) : c.toRecord.answer query = c.answer query := by
  unfold CursorRecord.answer answer rowNumber isBeforeFirst isAfterLast isFirst
  rw [position_toRecord, closed_toRecord, wasNull_toRecord, options_toRecord]
  cases query <;> rfl

theorem serve_toRecord (request : Request) :
    c.toRecord.serve request = ((c.serve request).1, (c.serve request).2.toRecord) := by
  rcases request with call | query
  · rcases call with _ | _ | ⟨column, read⟩ | name | _ | move | direction | size
    · exact next_toRecord c
    · exact isLast_toRecord c
    · exact get_toRecord c column read
    · exact congrArg (·, c.toRecord) (findColumn_toRecord c name)
    · simp only [CursorRecord.serve, serve, metadata, columns_toRecord, options_toRecord]
    · rfl
    · exact setFetchDirection_toRecord c direction
    · exact setFetchSize_toRecord c size
  · exact congrArg (·, c.toRecord) (answer_toRecord c query)
  · exact congrArg (Unit.unit, ·) (close_toRecord c)

theorem run_toRecord (requests : List Request) :
    c.toRecord.run requests = (c.run requests).toRecord := by
  induction requests generalizing c with
  | nil => rfl
  | cons request requests ih =>
    have hstep := congrArg Prod.snd (serve_toRecord c request)
    rw [CursorRecord.run, List.foldl_cons, hstep]
    exact ih (c.serve request).2

theorem replies_toRecord (requests : List Request) :
    c.toRecord.replies requests = c.replies requests := by
  induction requests generalizing c with
  | nil => rfl
  | cons request requests ih =>
    rw [CursorRecord.replies, replies, serve_toRecord, ih]

end

end Cursor

end WideRow
