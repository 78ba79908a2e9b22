import WideRow.Cursor.Basic

/-!
# Cursors as records

A cursor as a record of plain fields, each of which a call sets or clears on its own. Nothing in the
record keeps a row together with a position that has none; what the calls lead to does.
-/

namespace WideRow

structure CursorRecord where
  /-- The sources that are left, until they are exhausted or given up. -/
  source : Option ConcatSource
  /-- The columns of the first source. -/
  columns : Columns
  position : Position
  current : Option Row
  /-- The row that was pulled before its turn. -/
  lookahead : Option Row
  /-- Whether the value accessed last was null. -/
  wasNull : Bool
  options : CursorOptions
  closed : Bool

namespace CursorRecord

def ofOutput (output : QueryOutput) (options : CursorOptions) : CursorRecord :=
  let source := ConcatSource.ofOutput output
  ⟨some source, source.columns, .beforeFirst, none, none, false, options, false⟩

def ensureOpen (r : CursorRecord) : Result Unit :=
  if r.closed then .error .cursorClosed else .ok ()

/-! ## Moving -/

/-- The next row of the sources, if any are left. -/
def pullSource (r : CursorRecord) : Result (Option Row) × CursorRecord :=
  match r.source with
  | some source => (source.pull.1, { r with source := some source.pull.2 })
  | none => (.ok none, r)

/-- The next row: the one that was pulled before its turn comes first. -/
def pull (r : CursorRecord) : Result (Option Row) × CursorRecord :=
  match r.lookahead with
  | some row => (.ok (some row), { r with lookahead := none })
  | none => r.pullSource

/-- Moves on from the row with a number. -/
def moveOn (r : CursorRecord) (number : Nat) : Result Bool × CursorRecord :=
  match r.pull with
  | (.error error, r) => (.error error, r)
  | (.ok (some row), r) => (.ok true, { r with current := some row, position := .onRow (number + 1) })
  | (.ok none, r) => (.ok false, { r with current := none, source := none, position := .afterLast })

def next (r : CursorRecord) : Result Bool × CursorRecord :=
  match r.ensureOpen with
  | .error error => (.error error, r)
  | .ok _ =>
    match r.position with
    | .afterLast => (.ok false, r)
    | .beforeFirst => r.moveOn 0
    | .onRow number => r.moveOn number

def isLast (r : CursorRecord) : Result Bool × CursorRecord :=
  match r.ensureOpen with
  | .error error => (.error error, r)
  | .ok _ =>
    match r.position, r.lookahead with
    | .onRow _, some _ => (.ok false, r)
    | .onRow _, none =>
      match r.pullSource with
      | (.error error, r) => (.error error, r)
      | (.ok lookahead, r) => (.ok lookahead.isNone, { r with lookahead := lookahead })
    | _, _ => (.ok false, r)

def close (r : CursorRecord) : CursorRecord :=
  { r with closed := true, source := none, current := none, lookahead := none }

/-! ## Options -/

def setFetchDirection (r : CursorRecord) (direction : FetchDirection) :
    Result Unit × CursorRecord :=
  match r.ensureOpen with
  | .error error => (.error error, r)
  | .ok _ =>
    if r.options.cursorType = .forwardOnly ∧ direction ≠ .forward then
      (.error (.invalidFetchDirection direction.code.toInt), r)
    else (.ok (), { r with options := r.options.withFetchDirection direction })

def setFetchSize (r : CursorRecord) (size : Int32) : Result Unit × CursorRecord :=
  match r.ensureOpen with
  | .error error => (.error error, r)
  | .ok _ =>
    if size < 0 then (.error (.invalidFetchSize size.toInt), r)
    else (.ok (), { r with options := r.options.withFetchSize size })

/-! ## Columns -/

def findColumn (r : CursorRecord) (name : String) : Result Nat := do
  r.ensureOpen
  let columns := (r.current.map Row.columns).getD r.columns
  let i ← columns.resolve (.name name)
  return i.val + 1

def cell (r : CursorRecord) (column : ColumnRef) : Result Cell := do
  r.ensureOpen
  match r.current with
  | none => .error .noCurrentRow
  | some row => do
    let i ← row.columns.resolve column
    return row.cell i

def get {α : Type} (r : CursorRecord) (column : ColumnRef) (read : Cell → Result α) :
    Result α × CursorRecord :=
  match r.cell column with
  | .error error => (.error error, r)
  | .ok cell => (read cell, { r with wasNull := cell.isNull })

end CursorRecord

end WideRow
