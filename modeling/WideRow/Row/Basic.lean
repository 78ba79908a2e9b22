import WideRow.Row.Cell
import WideRow.Row.Column

/-!
# Rows

A row has one encoded value for each column of its result. The columns belong to the row, so rows of
several results may stand in one sequence.
-/

namespace WideRow

structure Row where
  columns : Columns
  values : List (Option Bytes)
  aligned : values.length = columns.length

namespace Row

/-- The error for another number of values than of columns. -/
def widthError (values columns : Nat) : ClientError :=
  .internal s!"row has {values} values for {columns} columns"

/-- A row of values for columns, if there are as many of both. -/
def ofValues (columns : Columns) (values : List (Option Bytes)) : Result Row :=
  if h : values.length = columns.length then .ok ⟨columns, values, h⟩
  else .error (widthError values.length columns.length)

/-- Whether the value at an index is absent, as it is past the end. -/
def isNull (r : Row) (i : Nat) : Bool :=
  (r.values[i]?.join).isNone

def cell (r : Row) (i : Fin r.columns.length) : Cell where
  name := r.columns[i].name
  type := r.columns[i].type
  raw := r.values.get ⟨i.val, by have := i.isLt; have := r.aligned; omega⟩

def cells (r : Row) : List Cell :=
  List.ofFn r.cell

/-- The general form of the column that is addressed. -/
def object (r : Row) (column : ColumnRef) : Result Value := do
  let i ← r.columns.resolve column
  (r.cell i).object

end Row

end WideRow
