import WideRow.Cursor.Metadata
import WideRow.Cursor.Options
import WideRow.Row.Source

/-!
# Cursors

A cursor walks once over the rows of a query, from before the first to after the last, and stays
there. It may look one row ahead to tell whether it stands on the last one. Every access to a column
of the current row notes whether the value was null. A closed cursor keeps its position but gives up
its rows. A call answers a value or an error, and leaves a cursor.
-/

namespace WideRow

/-- Where a cursor stands. Rows are counted from 1; counting to `2 ^ 64` takes more calls than anyone
makes. -/
inductive Position where
  | beforeFirst
  | onRow (number : Nat)
  | afterLast
  deriving DecidableEq, Repr

/-- What a cursor holds at its position. -/
inductive CursorState where
  | beforeFirst (rest : ConcatSource)
  /-- `ahead` is the row after the current one, once it has been looked at. -/
  | onRow (number : Nat) (row : Row) (ahead : Option Row) (rest : ConcatSource)
  | afterLast
  | closed (position : Position)

structure Cursor where
  state : CursorState
  /-- The columns of the first source. -/
  columns : Columns
  /-- Whether the value accessed last was null. -/
  wasNull : Bool
  options : CursorOptions

/-- A move that needs rows to be kept or read in another order. -/
inductive RandomMove where
  | absolute (row : Int)
  | relative (rows : Int)
  | previous
  | first
  | last
  | beforeFirst
  | afterLast
  deriving DecidableEq, Repr

def RandomMove.feature : RandomMove → String
  | absolute _ => "absolute"
  | relative _ => "relative"
  | previous => "previous"
  | first => "first"
  | last => "last"
  | beforeFirst => "before_first"
  | afterLast => "after_last"

namespace Cursor

def ofOutput (output : QueryOutput) (options : CursorOptions) : Cursor :=
  let source := ConcatSource.ofOutput output
  ⟨.beforeFirst source, source.columns, false, options⟩

/-! ## Position -/

def position (c : Cursor) : Position :=
  match c.state with
  | .beforeFirst _ => .beforeFirst
  | .onRow number _ _ _ => .onRow number
  | .afterLast => .afterLast
  | .closed position => position

/-- The row number after the last row: the greatest of 64 bits. -/
def afterLastRow : Nat := 18446744073709551615

/-- The number of the row; 0 before the first. -/
def rowNumber (c : Cursor) : Nat :=
  match c.position with
  | .beforeFirst => 0
  | .onRow number => number
  | .afterLast => afterLastRow

def isBeforeFirst (c : Cursor) : Bool :=
  c.position == .beforeFirst

def isAfterLast (c : Cursor) : Bool :=
  c.position == .afterLast

def isFirst (c : Cursor) : Bool :=
  c.position == .onRow 1

def isClosed (c : Cursor) : Bool :=
  match c.state with
  | .closed _ => true
  | _ => false

def ensureOpen (c : Cursor) : Result Unit :=
  if c.isClosed then .error .cursorClosed else .ok ()

def current? (c : Cursor) : Option Row :=
  match c.state with
  | .onRow _ row _ _ => some row
  | _ => none

/-! ## Moving -/

def withState (c : Cursor) (state : CursorState) : Cursor :=
  ⟨state, c.columns, c.wasNull, c.options⟩

/-- Moves to the row with the given number, if the source has one more, and else after the last. On
an error the cursor stays, with what `stay` holds. -/
def advance (c : Cursor) (number : Nat) (rest : ConcatSource)
    (stay : ConcatSource → CursorState) : Result Bool × Cursor :=
  match rest.pull with
  | (.error error, rest) => (.error error, c.withState (stay rest))
  | (.ok (some row), rest) => (.ok true, c.withState (.onRow number row none rest))
  | (.ok none, _) => (.ok false, c.withState .afterLast)

/-- Moves to the next row, and tells whether there was one. -/
def next (c : Cursor) : Result Bool × Cursor :=
  match c.state with
  | .closed _ => (.error .cursorClosed, c)
  | .afterLast => (.ok false, c)
  | .beforeFirst rest => c.advance 1 rest .beforeFirst
  | .onRow number _ (some row) rest => (.ok true, c.withState (.onRow (number + 1) row none rest))
  | .onRow number row none rest => c.advance (number + 1) rest (.onRow number row none)

/-- Whether the current row is the last. This may pull the row after it. -/
def isLast (c : Cursor) : Result Bool × Cursor :=
  match c.state with
  | .closed _ => (.error .cursorClosed, c)
  | .onRow number row none rest =>
    match rest.pull with
    | (.error error, rest) => (.error error, c.withState (.onRow number row none rest))
    | (.ok ahead, rest) => (.ok ahead.isNone, c.withState (.onRow number row ahead rest))
  | _ => (.ok false, c)

/-- No cursor makes such a move. -/
def moveTo (_ : Cursor) (move : RandomMove) : Result Bool :=
  .error (.featureNotSupported move.feature)

/-- Gives up all rows. -/
def close (c : Cursor) : Cursor :=
  c.withState (.closed c.position)

/-! ## Options -/

def withOptions (c : Cursor) (options : CursorOptions) : Cursor :=
  ⟨c.state, c.columns, c.wasNull, options⟩

/-- Sets the direction; a cursor that only moves forward takes no other one. -/
def setFetchDirection (c : Cursor) (direction : FetchDirection) : Result Unit × Cursor :=
  match c.ensureOpen with
  | .error error => (.error error, c)
  | .ok _ =>
    if c.options.cursorType = .forwardOnly ∧ direction ≠ .forward then
      (.error (.invalidFetchDirection direction.code.toInt), c)
    else (.ok (), c.withOptions (c.options.withFetchDirection direction))

def setFetchSize (c : Cursor) (size : Int32) : Result Unit × Cursor :=
  match c.ensureOpen with
  | .error error => (.error error, c)
  | .ok _ =>
    if size < 0 then (.error (.invalidFetchSize size.toInt), c)
    else (.ok (), c.withOptions (c.options.withFetchSize size))

/-! ## Columns -/

def metadata (c : Cursor) : Metadata :=
  ⟨c.columns, c.options.catalog.getD ""⟩

/-- The 1-based position of a column of the current row, or of the first source. This accesses no
value. -/
def findColumn (c : Cursor) (name : String) : Result Nat := do
  c.ensureOpen
  let columns := (c.current?.map Row.columns).getD c.columns
  let i ← columns.resolve (.name name)
  return i.val + 1

def cell (c : Cursor) (column : ColumnRef) : Result Cell :=
  match c.state with
  | .closed _ => .error .cursorClosed
  | .onRow _ row _ _ => do
    let i ← row.columns.resolve column
    return row.cell i
  | _ => .error .noCurrentRow

/-- Accesses a column of the current row: reads its cell, and notes whether the value was null. An
access that reaches no cell notes nothing. -/
def get {α : Type} (c : Cursor) (column : ColumnRef) (read : Cell → Result α) : Result α × Cursor :=
  match c.cell column with
  | .error error => (.error error, c)
  | .ok cell => (read cell, ⟨c.state, c.columns, cell.isNull, c.options⟩)

end Cursor

end WideRow
