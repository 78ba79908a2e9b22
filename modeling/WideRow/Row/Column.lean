import WideRow.Error.Basic
import WideRow.Schema.ColumnType

/-!
# Columns

The columns of a result are declared in order. A column is addressed by its 1-based position or by
name: a name in double quotes is meant exactly, any other one in any case. Of several columns with
one name the first is meant.
-/

namespace WideRow

structure Column where
  keyspace : String
  table : String
  name : String
  type : ColumnType

namespace Column

/-- What stands between double quotes at both ends. One quote alone is not quoted. -/
def unquote? : List Char → Option (List Char)
  | '"' :: rest => if rest.getLast? = some '"' then some rest.dropLast else none
  | _ => none

def isNamed (c : Column) (name : String) : Bool :=
  match unquote? name.toList with
  | some exact => c.name.toList == exact
  | none => Text.sameIgnoringCase c.name name

end Column

/-- How a column is addressed. -/
inductive ColumnRef where
  | position (position : Int)
  | name (name : String)
  deriving DecidableEq, Repr

abbrev Columns := List Column

namespace Columns

/-- The index of the first column that the name means. -/
def indexOf? (cs : Columns) (name : String) : Option (Fin cs.length) :=
  cs.findFinIdx? (·.isNamed name)

/-- The column at a 1-based position. -/
def atPosition? (cs : Columns) (position : Int) : Option (Fin cs.length) :=
  if h : 1 ≤ position ∧ position ≤ cs.length then some ⟨position.toNat - 1, by omega⟩ else none

def resolve (cs : Columns) : ColumnRef → Result (Fin cs.length)
  | .position position =>
    match cs.atPosition? position with
    | some i => .ok i
    | none => .error (.columnIndexOutOfRange position cs.length)
  | .name name =>
    match cs.indexOf? name with
    | some i => .ok i
    | none => .error (.noSuchColumn name)

end Columns

end WideRow
