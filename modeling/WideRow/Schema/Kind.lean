/-!
# Kinds

Three closed sets: the kinds of column types with their protocol numbers, the kinds of values that
clients receive, and the type codes of SQL metadata. A type of a scalar kind has no parameters.
-/

namespace WideRow

/-! ## Kinds of types -/

/-- The kinds of types without parameters. -/
inductive ScalarKind where
  | ascii
  | bigint
  | blob
  | boolean
  | counter
  | decimal
  | double
  | float
  | int
  | text
  | timestamp
  | uuid
  | varchar
  | varint
  | timeuuid
  | inet
  | date
  | time
  | smallint
  | tinyint
  | duration
  deriving DecidableEq, Repr

inductive TypeKind where
  | custom
  | scalar (kind : ScalarKind)
  | list
  | map
  | set
  | udt
  | tuple
  deriving DecidableEq, Repr

namespace ScalarKind

/-- Every scalar kind, in the order of the protocol numbers. -/
def all : List ScalarKind :=
  [ascii, bigint, blob, boolean, counter, decimal, double, float, int, text, timestamp, uuid,
    varchar, varint, timeuuid, inet, date, time, smallint, tinyint, duration]

/-- The name in lower case, as type names write it. -/
def name : ScalarKind → String
  | ascii => "ascii"
  | bigint => "bigint"
  | blob => "blob"
  | boolean => "boolean"
  | counter => "counter"
  | decimal => "decimal"
  | double => "double"
  | float => "float"
  | int => "int"
  | text => "text"
  | timestamp => "timestamp"
  | uuid => "uuid"
  | varchar => "varchar"
  | varint => "varint"
  | timeuuid => "timeuuid"
  | inet => "inet"
  | date => "date"
  | time => "time"
  | smallint => "smallint"
  | tinyint => "tinyint"
  | duration => "duration"

/-- The name with a capital at the start of each word. -/
def title : ScalarKind → String
  | ascii => "Ascii"
  | bigint => "BigInt"
  | blob => "Blob"
  | boolean => "Boolean"
  | counter => "Counter"
  | decimal => "Decimal"
  | double => "Double"
  | float => "Float"
  | int => "Int"
  | text => "Text"
  | timestamp => "Timestamp"
  | uuid => "Uuid"
  | varchar => "Varchar"
  | varint => "Varint"
  | timeuuid => "TimeUuid"
  | inet => "Inet"
  | date => "Date"
  | time => "Time"
  | smallint => "SmallInt"
  | tinyint => "TinyInt"
  | duration => "Duration"

/-- The number of the kind on the wire. -/
def protocolId : ScalarKind → Nat
  | ascii => 1
  | bigint => 2
  | blob => 3
  | boolean => 4
  | counter => 5
  | decimal => 6
  | double => 7
  | float => 8
  | int => 9
  | text => 10
  | timestamp => 11
  | uuid => 12
  | varchar => 13
  | varint => 14
  | timeuuid => 15
  | inet => 16
  | date => 17
  | time => 18
  | smallint => 19
  | tinyint => 20
  | duration => 21

/-- Whether values are character strings. -/
def isText : ScalarKind → Bool
  | ascii | text | varchar => true
  | _ => false

/-- The only length an encoded value can have, for kinds that have one. -/
def fixedWidth : ScalarKind → Option Nat
  | boolean | tinyint => some 1
  | smallint => some 2
  | int | float | date => some 4
  | bigint | counter | double | timestamp | time => some 8
  | uuid | timeuuid => some 16
  | _ => none

end ScalarKind

namespace TypeKind

/-- Every kind, in the order of the protocol numbers. -/
def all : List TypeKind :=
  custom :: ScalarKind.all.map scalar ++ [list, map, set, udt, tuple]

def name : TypeKind → String
  | custom => "custom"
  | scalar kind => kind.name
  | list => "list"
  | map => "map"
  | set => "set"
  | udt => "udt"
  | tuple => "tuple"

/-- The name with a capital at the start of each word. -/
def title : TypeKind → String
  | custom => "Custom"
  | scalar kind => kind.title
  | list => "List"
  | map => "Map"
  | set => "Set"
  | udt => "Udt"
  | tuple => "Tuple"

def protocolId : TypeKind → Nat
  | custom => 0
  | scalar kind => kind.protocolId
  | list => 32
  | map => 33
  | set => 34
  | udt => 48
  | tuple => 49

def isCollection : TypeKind → Bool
  | list | set | map => true
  | _ => false

/-- Whether values have components of types of their own. -/
def isStructure : TypeKind → Bool
  | udt | tuple => true
  | _ => false

def isText : TypeKind → Bool
  | scalar kind => kind.isText
  | _ => false

def fixedWidth : TypeKind → Option Nat
  | scalar kind => kind.fixedWidth
  | _ => none

end TypeKind

/-! ## Kinds of values -/

/-- The kinds of values that clients receive. -/
inductive ClientKind where
  | bytes
  | boolean
  | byte
  | short
  | int
  | long
  | float
  | double
  | decimal
  | bigInteger
  | string
  | uuid
  | inetAddress
  | date
  | time
  | timestamp
  | duration
  | list
  | set
  | map
  | udt
  | tuple
  deriving DecidableEq, Repr

def ClientKind.all : List ClientKind :=
  [.bytes, .boolean, .byte, .short, .int, .long, .float, .double, .decimal, .bigInteger, .string,
    .uuid, .inetAddress, .date, .time, .timestamp, .duration, .list, .set, .map, .udt, .tuple]

def ClientKind.name : ClientKind → String
  | bytes => "Bytes"
  | boolean => "Boolean"
  | byte => "Byte"
  | short => "Short"
  | int => "Int"
  | long => "Long"
  | float => "Float"
  | double => "Double"
  | decimal => "Decimal"
  | bigInteger => "BigInteger"
  | string => "String"
  | uuid => "Uuid"
  | inetAddress => "InetAddress"
  | date => "Date"
  | time => "Time"
  | timestamp => "Timestamp"
  | duration => "Duration"
  | list => "List"
  | set => "Set"
  | map => "Map"
  | udt => "Udt"
  | tuple => "Tuple"

/-- The name that metadata gives to the class of the values. -/
def ClientKind.className : ClientKind → String
  | bytes => "bytes::Bytes"
  | boolean => "bool"
  | byte => "i8"
  | short => "i16"
  | int => "i32"
  | long => "i64"
  | float => "f32"
  | double => "f64"
  | decimal => "colbridge_client::Decimal"
  | bigInteger => "colbridge_client::Varint"
  | string => "String"
  | uuid => "uuid::Uuid"
  | inetAddress => "std::net::IpAddr"
  | date => "colbridge_client::SqlDate"
  | time => "colbridge_client::SqlTime"
  | timestamp => "colbridge_client::SqlTimestamp"
  | duration => "colbridge_client::CqlDuration"
  | list => "Vec<colbridge_client::Value>"
  | set => "colbridge_client::ValueSet"
  | map => "colbridge_client::ValueMap"
  | udt => "colbridge_client::UdtValue"
  | tuple => "colbridge_client::TupleValue"

/-! ## Type codes of SQL -/

inductive SqlType where
  | bit
  | tinyInt
  | bigInt
  | longVarBinary
  | binary
  | char
  | decimal
  | integer
  | smallInt
  | float
  | double
  | varchar
  | boolean
  | date
  | time
  | timestamp
  | other
  deriving DecidableEq, Repr

def SqlType.name : SqlType → String
  | bit => "Bit"
  | tinyInt => "TinyInt"
  | bigInt => "BigInt"
  | longVarBinary => "LongVarBinary"
  | binary => "Binary"
  | char => "Char"
  | decimal => "Decimal"
  | integer => "Integer"
  | smallInt => "SmallInt"
  | float => "Float"
  | double => "Double"
  | varchar => "Varchar"
  | boolean => "Boolean"
  | date => "Date"
  | time => "Time"
  | timestamp => "Timestamp"
  | other => "Other"

/-- The number that metadata reports. -/
def SqlType.code : SqlType → Int
  | bit => -7
  | tinyInt => -6
  | bigInt => -5
  | longVarBinary => -4
  | binary => -2
  | char => 1
  | decimal => 3
  | integer => 4
  | smallInt => 5
  | float => 6
  | double => 8
  | varchar => 12
  | boolean => 16
  | date => 91
  | time => 92
  | timestamp => 93
  | other => 1111

end WideRow
