import WideRow.Config.Setting
import WideRow.Row.Column
import WideRow.Schema.Registry

/-!
# Metadata

What is known of a result's columns without reading a row. Columns are addressed by positions from
1 on.
-/

namespace WideRow

/-- What is known about nulls in a column. -/
inductive Nullability where
  | noNulls
  | nullable
  | unknown
  deriving DecidableEq, Repr

def Nullability.code : Nullability → Int32
  | noNulls => 0
  | nullable => 1
  | unknown => 2

/-- The greatest width at which a column is displayed. -/
def maxColumnWidth : Int32 := 40

structure Metadata where
  columns : Columns
  catalog : String

namespace Metadata

def column (m : Metadata) (position : Nat) : Result Column :=
  match m.columns.atPosition? position with
  | some i => .ok m.columns[i]
  | none => .error (.outOfRange position m.columns.length)

def descriptor (m : Metadata) (position : Nat) : Result TypeDescriptor := do
  let c ← m.column position
  return Registry.describeType c.type

def columnCount (m : Metadata) : Nat :=
  m.columns.length

def columnName (m : Metadata) (position : Nat) : Result String :=
  Column.name <$> m.column position

/-- The label of a column is its name. -/
def columnLabel (m : Metadata) (position : Nat) : Result String :=
  m.columnName position

def columnTypeName (m : Metadata) (position : Nat) : Result String := do
  let c ← m.column position
  return c.type.name

def sqlType (m : Metadata) (position : Nat) : Result SqlType :=
  TypeDescriptor.sqlType <$> m.descriptor position

def typeKind (m : Metadata) (position : Nat) : Result TypeKind := do
  let c ← m.column position
  return c.type.kind

def clientKind (m : Metadata) (position : Nat) : Result ClientKind :=
  TypeDescriptor.clientKind <$> m.descriptor position

def columnClassName (m : Metadata) (position : Nat) : Result String :=
  ClientKind.className <$> m.clientKind position

def isSigned (m : Metadata) (position : Nat) : Result Bool :=
  TypeDescriptor.signed <$> m.descriptor position

def isCaseSensitive (m : Metadata) (position : Nat) : Result Bool :=
  TypeDescriptor.caseSensitive <$> m.descriptor position

def isCurrency (m : Metadata) (position : Nat) : Result Bool :=
  TypeDescriptor.currency <$> m.descriptor position

def precision (m : Metadata) (position : Nat) : Result Int32 :=
  TypeDescriptor.precision <$> m.descriptor position

/-- No column reports a scale. -/
def scale (m : Metadata) (position : Nat) : Result Int32 := do
  let _ ← m.column position
  return 0

/-- The precision, as far as it is displayed. Decimals take the whole width. -/
def displaySize (m : Metadata) (position : Nat) : Result Int32 := do
  let d ← m.descriptor position
  if d.kind = .scalar .decimal then return maxColumnWidth
  return if d.precision ≤ maxColumnWidth then d.precision else maxColumnWidth

/-- Any column may hold nulls. -/
def isNullable (m : Metadata) (position : Nat) : Result Nullability := do
  let _ ← m.column position
  return .nullable

/-- The server never numbers rows. -/
def isAutoIncrement (m : Metadata) (position : Nat) : Result Bool := do
  let _ ← m.column position
  return false

/-- No column promises that conditions can be put on it. -/
def isSearchable (m : Metadata) (position : Nat) : Result Bool := do
  let _ ← m.column position
  return false

/-- Only position 0, where no column can be. -/
def isReadOnly (_ : Metadata) (position : Nat) : Bool :=
  position == 0

/-- Every position where a column can be. -/
def isWritable (_ : Metadata) (position : Nat) : Bool :=
  position != 0

def tableName (m : Metadata) (position : Nat) : Result String :=
  Column.table <$> m.column position

def schemaName (m : Metadata) (position : Nat) : Result String :=
  Column.keyspace <$> m.column position

def catalogName (m : Metadata) (position : Nat) : Result String := do
  let _ ← m.column position
  return m.catalog

/-- All that is known of the column at a position, by name. -/
def facts (m : Metadata) (position : Nat) : List (String × Result Setting) :=
  let text (r : Result String) := r.map Setting.text
  let flag (r : Result Bool) := r.map Setting.flag
  let number (r : Result Int32) := r.map fun n => Setting.number n.toInt
  [("column_name", text (m.columnName position)), ("column_label", text (m.columnLabel position)),
    ("column_type_name", text (m.columnTypeName position)),
    ("column_type", (m.sqlType position).map fun t => .number t.code),
    ("type_kind", (m.typeKind position).map fun k => .text k.name),
    ("client_kind", (m.clientKind position).map fun k => .text k.name),
    ("column_class_name", text (m.columnClassName position)),
    ("is_signed", flag (m.isSigned position)),
    ("is_case_sensitive", flag (m.isCaseSensitive position)),
    ("is_currency", flag (m.isCurrency position)), ("precision", number (m.precision position)),
    ("scale", number (m.scale position)), ("display_size", number (m.displaySize position)),
    ("is_nullable", number ((m.isNullable position).map Nullability.code)),
    ("is_auto_increment", flag (m.isAutoIncrement position)),
    ("is_searchable", flag (m.isSearchable position)),
    ("is_read_only", .ok (.flag (m.isReadOnly position))),
    ("is_writable", .ok (.flag (m.isWritable position))),
    ("table_name", text (m.tableName position)), ("schema_name", text (m.schemaName position)),
    ("catalog_name", text (m.catalogName position))]

end Metadata

end WideRow
