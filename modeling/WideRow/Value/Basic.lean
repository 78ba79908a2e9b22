import WideRow.Number.Decimal
import WideRow.Schema.ColumnType
import WideRow.Time.Duration
import WideRow.Time.Instant
import WideRow.Value.Address

/-!
# Values

A decoded column value. Sets and maps hold their items in the order of insertion. Values of
user-defined types and tuples keep their components encoded, beside the types that say how to read
them. Values are compared by `same`, which compares floating-point numbers as numbers: what is no
number differs even from itself, and the two zeros agree.
-/

namespace WideRow

inductive Value where
  | null
  | boolean (value : Bool)
  | tinyint (value : Int8)
  | smallint (value : Int16)
  | int (value : Int32)
  | bigint (value : Int64)
  | float (value : Binary32)
  | double (value : Binary64)
  | decimal (value : Decimal)
  | varint (value : Varint)
  | text (value : String)
  | blob (value : Bytes)
  | uuid (value : Uuid)
  | inet (value : Address)
  | date (value : Date)
  | time (value : TimeOfDay)
  | timestamp (value : Timestamp)
  | duration (value : Duration)
  | list (items : List Value)
  | set (items : List Value)
  | map (entries : List (Value × Value))
  | udt (definition : UdtType) (components : List (Option Bytes))
  | tuple (types : List ColumnType) (components : List (Option Bytes))

instance : Inhabited Value :=
  ⟨.null⟩

namespace Value

def isNull : Value → Bool
  | null => true
  | _ => false

def kindName : Value → String
  | null => "null"
  | boolean _ => "boolean"
  | tinyint _ => "tinyint"
  | smallint _ => "smallint"
  | int _ => "int"
  | bigint _ => "bigint"
  | float _ => "float"
  | double _ => "double"
  | decimal _ => "decimal"
  | varint _ => "varint"
  | text _ => "text"
  | blob _ => "blob"
  | uuid _ => "uuid"
  | inet _ => "inet"
  | date _ => "date"
  | time _ => "time"
  | timestamp _ => "timestamp"
  | duration _ => "duration"
  | list _ => "list"
  | set _ => "set"
  | map _ => "map"
  | udt .. => "udt"
  | tuple .. => "tuple"

def asText? : Value → Option String
  | text s => some s
  | _ => none

/-- The number of a whole-number value that fits 64 bits. -/
def asInt64? : Value → Option Int64
  | tinyint v => some v.toInt64
  | smallint v => some v.toInt64
  | int v => some v.toInt64
  | bigint v => some v
  | varint v => v.toInt64?
  | _ => none

/-! ## Equality -/

mutual

/-- Whether two values are of one kind and equal. -/
def same : Value → Value → Bool
  | null, null => true
  | boolean a, boolean b => a == b
  | tinyint a, tinyint b => a == b
  | smallint a, smallint b => a == b
  | int a, int b => a == b
  | bigint a, bigint b => a == b
  | float a, float b => a.sameNumber b
  | double a, double b => a.sameNumber b
  | decimal a, decimal b => a == b
  | varint a, varint b => a == b
  | text a, text b => a == b
  | blob a, blob b => a == b
  | uuid a, uuid b => a == b
  | inet a, inet b => a == b
  | date a, date b => a == b
  | time a, time b => a == b
  | timestamp a, timestamp b => a == b
  | duration a, duration b => a == b
  | list a, list b => sameItems a b
  | set a, set b => sameItems a b
  | map a, map b => sameEntries a b
  | udt d a, udt e b => d == e && a == b
  | tuple t a, tuple u b => t == u && a == b
  | _, _ => false
termination_by structural v => v

/-- Whether two lists agree item by item. -/
def sameItems : List Value → List Value → Bool
  | [], [] => true
  | x :: xs, y :: ys => x.same y && sameItems xs ys
  | _, _ => false
termination_by structural v => v

/-- Whether two lists agree entry by entry, in keys and values. -/
def sameEntries : List (Value × Value) → List (Value × Value) → Bool
  | [], [] => true
  | (k, v) :: xs, (l, w) :: ys => k.same l && v.same w && sameEntries xs ys
  | _, _ => false
termination_by structural v => v

end

end Value

end WideRow
