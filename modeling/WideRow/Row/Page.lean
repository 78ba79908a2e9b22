import WideRow.Row.Source
import WideRow.Wire.Encode

/-!
# Building pages

A page is built column by column and row by row. Values are encoded for their columns; raw rows are
taken as they are, whatever their width.
-/

namespace WideRow

structure PageBuilder where
  keyspace : String
  table : String
  columns : Columns
  rows : Array (List (Option Bytes))

namespace PageBuilder

def start (keyspace table : String) : PageBuilder :=
  ⟨keyspace, table, [], #[]⟩

def addColumn (p : PageBuilder) (name : String) (type : ColumnType) : PageBuilder :=
  ⟨p.keyspace, p.table, p.columns ++ [⟨p.keyspace, p.table, name, type⟩], p.rows⟩

/-- Encodes values for columns, pair by pair. -/
def encodeRow : Columns → List Value → Result (List (Option Bytes))
  | column :: columns, v :: vs => do
    let first ← encodeValue column.type v
    let rest ← encodeRow columns vs
    return first :: rest
  | _, _ => .ok []

def addRow (p : PageBuilder) (values : List Value) : Result PageBuilder := do
  if values.length != p.columns.length then
    throw (Row.widthError values.length p.columns.length)
  let encoded ← encodeRow p.columns values
  return ⟨p.keyspace, p.table, p.columns, p.rows.push encoded⟩

def addRawRow (p : PageBuilder) (raw : List (Option Bytes)) : PageBuilder :=
  ⟨p.keyspace, p.table, p.columns, p.rows.push raw⟩

def build (p : PageBuilder) : RowSource :=
  .ofPage p.columns p.rows.toList

end PageBuilder

/-! ## Pages of numbers -/

namespace QueryOutput

def numberColumns : Columns :=
  [⟨"test", "numbers", "id", .scalar .int⟩]

def numberPage (first count : Nat) : RowSource :=
  .ofPage numberColumns ((List.range' first count).map fun n => [some (Bytes.ofNat 4 n)])

/-- That many pages with that many numbers each, counted from zero through all pages. An empty page
may stand before each. -/
def numberPages (pages perPage : Nat) (withEmpty : Bool) : QueryOutput :=
  .multi <| (List.range pages).flatMap fun i =>
    (if withEmpty then [RowSource.ofPage numberColumns []] else []) ++
      [numberPage (i * perPage) perPage]

end QueryOutput

end WideRow
