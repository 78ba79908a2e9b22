import WideRow.Config.Setting
import WideRow.Error.Basic
import WideRow.Schema.ColumnType

/-!
# The type registry

Every kind of type has one descriptor: the kind of value that clients receive and what metadata
reports about it. A descriptor is found by protocol number, by name or by client kind. Where several
kinds of type share a client kind, the canonical one answers for it.
-/

namespace WideRow

structure TypeDescriptor where
  kind : TypeKind
  clientKind : ClientKind
  sqlType : SqlType
  /-- Number of characters shown; 0 where it makes no sense. -/
  precision : Int32
  signed : Bool
  caseSensitive : Bool
  currency : Bool
  /-- Whether it answers for its client kind where several kinds share it. -/
  canonical : Bool
  deriving DecidableEq, Repr

/-- The precision of kinds whose values have no bound. -/
def unboundedPrecision : Int32 := 2147483647

namespace TypeDescriptor

def plain (kind : TypeKind) (clientKind : ClientKind) (sqlType : SqlType) (precision : Int32)
    (signed : Bool) : TypeDescriptor :=
  ⟨kind, clientKind, sqlType, precision, signed, false, false, false⟩

def string (kind : ScalarKind) : TypeDescriptor :=
  ⟨.scalar kind, .string, .varchar, unboundedPrecision, false, true, false, false⟩

def asCanonical (d : TypeDescriptor) : TypeDescriptor :=
  ⟨d.kind, d.clientKind, d.sqlType, d.precision, d.signed, d.caseSensitive, d.currency, true⟩

def protocolId (d : TypeDescriptor) : Nat :=
  d.kind.protocolId

def name (d : TypeDescriptor) : String :=
  d.kind.name

def isCollection (d : TypeDescriptor) : Bool :=
  d.kind.isCollection

/-- What the descriptor says, by name. -/
def facts (d : TypeDescriptor) : Settings :=
  [("name", .text d.name), ("kind", .text d.kind.title), ("kind_text", .text d.kind.name),
    ("protocol_id", .number d.protocolId), ("client_kind", .text d.clientKind.name),
    ("class_name", .text d.clientKind.className), ("sql_type", .text d.sqlType.name),
    ("sql_code", .number d.sqlType.code), ("precision", .number d.precision.toInt),
    ("signed", .flag d.signed), ("case_sensitive", .flag d.caseSensitive),
    ("currency", .flag d.currency), ("canonical", .flag d.canonical),
    ("is_collection", .flag d.isCollection), ("is_structure", .flag d.kind.isStructure),
    ("is_text", .flag d.kind.isText),
    ("fixed_width", .ofNumber? (d.kind.fixedWidth.map Int.ofNat))]

end TypeDescriptor

namespace Registry

open TypeDescriptor

def describeKind : TypeKind → TypeDescriptor
  | .custom => plain .custom .bytes .other 0 false
  | .scalar .ascii => string .ascii
  | .scalar .bigint => (plain (.scalar .bigint) .long .bigInt 20 true).asCanonical
  | .scalar .blob => (plain (.scalar .blob) .bytes .binary unboundedPrecision false).asCanonical
  | .scalar .boolean => plain (.scalar .boolean) .boolean .boolean 5 false
  | .scalar .counter => plain (.scalar .counter) .long .bigInt 20 true
  | .scalar .decimal =>
    ⟨.scalar .decimal, .decimal, .decimal, unboundedPrecision, true, false, true, false⟩
  | .scalar .double => plain (.scalar .double) .double .double 300 true
  | .scalar .float => plain (.scalar .float) .float .float 40 true
  | .scalar .int => plain (.scalar .int) .int .integer 11 true
  | .scalar .text => string .text
  | .scalar .timestamp => plain (.scalar .timestamp) .timestamp .timestamp 31 false
  | .scalar .uuid => (plain (.scalar .uuid) .uuid .char 36 false).asCanonical
  | .scalar .varchar => (string .varchar).asCanonical
  | .scalar .varint => plain (.scalar .varint) .bigInteger .decimal unboundedPrecision true
  | .scalar .timeuuid => plain (.scalar .timeuuid) .uuid .char 36 false
  | .scalar .inet => plain (.scalar .inet) .inetAddress .other 39 false
  | .scalar .date => plain (.scalar .date) .date .date 10 false
  | .scalar .time => plain (.scalar .time) .time .time 15 false
  | .scalar .smallint => plain (.scalar .smallint) .short .smallInt 6 true
  | .scalar .tinyint => plain (.scalar .tinyint) .byte .tinyInt 4 true
  | .scalar .duration => plain (.scalar .duration) .duration .other 0 false
  | .list => plain .list .list .other 0 false
  | .map => plain .map .map .other 0 false
  | .set => plain .set .set .other 0 false
  | .udt => plain .udt .udt .other 0 false
  | .tuple => plain .tuple .tuple .other 0 false

/-- All descriptors, in the order of the protocol numbers. -/
def descriptors : List TypeDescriptor :=
  TypeKind.all.map describeKind

def describe (protocolId : Int) : Result TypeDescriptor :=
  match descriptors.find? fun d => (d.protocolId : Int) == protocolId with
  | some d => .ok d
  | none => .error (.unknownType s!"protocol id {protocolId}")

/-- The descriptor with a name, in any case and with blanks around it. -/
def describeName (name : String) : Result TypeDescriptor :=
  match descriptors.find? (·.name == Text.foldCase (Text.trim name)) with
  | some d => .ok d
  | none => .error (.unknownType name)

/-- The descriptor that answers for a client kind. -/
def describeClientKind (kind : ClientKind) : Option TypeDescriptor :=
  let sharing := descriptors.filter (·.clientKind == kind)
  sharing.find? fun d => sharing.length == 1 || d.canonical

def describeType (t : ColumnType) : TypeDescriptor :=
  describeKind t.kind

end Registry

end WideRow
