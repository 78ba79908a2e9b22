import WideRow.Value.Text
import WideRow.Text.Numeral

/-!
# Cells

A cell is one column of one row: a name, a declared type and bytes. The declared type decides how
bytes are read, whatever a caller asks for, and a caller may ask only for what the type serves.
Absent bytes are null and are looked at before the type: numbers read as zero, all else as nothing.
Collections and structures look at the type first.
-/

namespace WideRow

structure Cell where
  name : String
  type : ColumnType
  raw : Option Bytes

namespace Cell

def isNull (c : Cell) : Bool :=
  c.raw.isNone

/-- The error that the type does not serve a request. -/
def mismatch (c : Cell) (requested : String) : ClientError :=
  .typeMismatch c.name c.type.name requested

def object (c : Cell) : Result Value :=
  decodeValue c.type c.raw

/-- Reads bytes by the reader of the declared kind. Absent bytes read as `absent`, and a kind
without a reader does not serve the request. -/
def read {α : Type} (c : Cell) (requested : String) (absent : α)
    (reader : TypeKind → Option (Bytes → Result α)) : Result α :=
  match c.raw with
  | none => .ok absent
  | some b =>
    match reader c.type.kind with
    | some decode => decode b
    | none => .error (c.mismatch requested)

/-! ## Numbers -/

def boolean (c : Cell) : Result Bool :=
  c.read "bool" false fun
    | .scalar .boolean => some Scalar.decodeBoolean
    | _ => none

def byte (c : Cell) : Result Int8 :=
  c.read "i8" 0 fun
    | .scalar .tinyint => some Scalar.decodeTinyint
    | _ => none

/-- Reads 16 bits; 8 bits are widened. -/
def short (c : Cell) : Result Int16 :=
  c.read "i16" 0 fun
    | .scalar .smallint => some Scalar.decodeSmallint
    | .scalar .tinyint => some fun b => Int8.toInt16 <$> Scalar.decodeTinyint b
    | _ => none

/-- An integer as 32 bits, if it has so few. -/
def narrow? (i : Int) : Option Int32 :=
  if -2147483648 ≤ i ∧ i ≤ 2147483647 then some (Int32.ofInt i) else none

/-- The 32-bit integer that bytes of a kind denote, where they denote one; none where the kind has
no integer reading at all. -/
def intReading : ScalarKind → Option (Bytes → Option Int32)
  | .int => some fun b => (Scalar.decodeInt b).toOption
  | .smallint => some fun b => (Scalar.decodeSmallint b).toOption.map Int16.toInt32
  | .tinyint => some fun b => (Scalar.decodeTinyint b).toOption.map Int8.toInt32
  | .varint => some fun b => do
    let v ← (Scalar.decodeVarint b).toOption
    narrow? (← v.toInt64?).toInt
  | kind =>
    if kind.isText then
      some fun b => do
        let s ← (Scalar.decodeText kind b).toOption
        Text.readInt32? (Text.trimChars s.toList)
    else none

/-- Reads 32 bits leniently: bytes that denote no such integer read as zero, so that no malformed
value ends an iteration over rows. Text is read as a numeral. -/
def intLenient (c : Cell) : Result Int32 :=
  c.read "i32" 0 fun
    | .scalar kind => (intReading kind).map fun read b => .ok ((read b).getD 0)
    | _ => none

/-- Reads 64 bits: `int` is sign-extended, of `varint` the lowest 64 bits count, and any other type
has to have eight bytes. -/
def wideInteger (c : Cell) : Result Int64 :=
  c.read "i64" 0 fun
    | .scalar .int => some fun b => Int32.toInt64 <$> Scalar.decodeInt b
    | .scalar .varint => some fun b => Varint.toInt64Wrapping <$> Scalar.decodeVarint b
    | kind => some (Scalar.decodeInt64 kind.name)

def float (c : Cell) : Result Binary32 :=
  c.read "f32" ⟨0⟩ fun
    | .scalar .float => some Scalar.decodeFloat
    | _ => none

/-- Reads a 64-bit number: `float` is widened, and any other type has to have eight bytes. -/
def wideFloat (c : Cell) : Result Binary64 :=
  c.read "f64" ⟨0⟩ fun
    | .scalar .float => some fun b => Binary64.ofBinary32 <$> Scalar.decodeFloat b
    | kind => some (Scalar.decodeDouble kind.name)

/-- Reads a decimal at its stored scale, or at a given one if that loses nothing. -/
def decimal (c : Cell) (scale : Option Int32) : Result (Option Decimal) :=
  let rescaled (d : Decimal) : Result (Option Decimal) :=
    match scale with
    | some scale => some <$> d.withScale scale
    | none => .ok (some d)
  c.read "Decimal" none fun
    | .scalar .decimal => some fun b => do rescaled (← Decimal.ofBytes b)
    | .scalar .varint => some fun b => do rescaled ⟨← Scalar.decodeVarint b, 0⟩
    | _ => none

def varint (c : Cell) : Result (Option Varint) :=
  c.read "Varint" none fun
    | .scalar .varint => some fun b => some <$> Scalar.decodeVarint b
    | _ => none

/-! ## Text and bytes -/

/-- The text of the bytes of a type that has a text form of its own. -/
def naturalText? (type : ColumnType) (b : Bytes) : Option String :=
  match type.kind with
  | .scalar kind =>
    if kind.isText then (Scalar.decodeText kind b).toOption
    else (decodeValue type (some b)).toOption.map Value.display
  | _ => none

/-- The value as text. Where the type has no text form of its own, or it fails, the general form is
shown, which may be null. -/
def text (c : Cell) : Result (Option String) :=
  match c.raw with
  | none => .ok none
  | some b =>
    match naturalText? c.type b with
    | some s => .ok (some s)
    | none => do
      match ← c.object with
      | .null => return none
      | v => return some v.display

/-- The bytes of a `blob` or custom column. -/
def bytes (c : Cell) : Result (Option Bytes) :=
  c.read "Bytes" none fun
    | .scalar .blob | .custom => some fun b => .ok (some b)
    | _ => none

/-! ## Identifiers and times -/

def uuid (c : Cell) : Result (Option Uuid) :=
  c.read "Uuid" none fun
    | .scalar .uuid => some fun b => some <$> Scalar.decodeUuid "uuid" b
    | .scalar .timeuuid => some fun b => some <$> Scalar.decodeUuid "timeuuid" b
    | _ => none

def inet (c : Cell) : Result (Option Address) :=
  c.read "IpAddr" none fun
    | .scalar .inet => some fun b => some <$> Scalar.decodeInet b
    | _ => none

def date (c : Cell) : Result (Option Date) :=
  c.read "SqlDate" none fun
    | .scalar .date => some fun b => some <$> Scalar.decodeDate b
    | _ => none

def time (c : Cell) : Result (Option TimeOfDay) :=
  c.read "SqlTime" none fun
    | .scalar .time => some fun b => some <$> Scalar.decodeTime b
    | _ => none

def timestamp (c : Cell) : Result (Option Timestamp) :=
  c.read "SqlTimestamp" none fun
    | .scalar .timestamp => some fun b => some <$> Scalar.decodeTimestamp b
    | _ => none

def duration (c : Cell) : Result (Option Duration) :=
  c.read "CqlDuration" none fun
    | .scalar .duration => some fun b => some <$> Duration.ofBytes b
    | _ => none

/-! ## Collections and structures -/

/-- A part of the general form of a column of one kind; nothing for absent bytes, or where the
general form has no such part. Any other kind is refused even then. -/
def ofKind {α : Type} (c : Cell) (requested : String) (kind : TypeKind) (part : Value → Option α) :
    Result (Option α) :=
  if c.type.kind != kind then .error (c.mismatch requested)
  else if c.isNull then .ok none
  else part <$> c.object

def list (c : Cell) : Result (Option (List Value)) :=
  c.ofKind "Vec<Value>" .list fun
    | .list items => some items
    | _ => none

def set (c : Cell) : Result (Option (List Value)) :=
  c.ofKind "ValueSet" .set fun
    | .set items => some items
    | _ => none

def map (c : Cell) : Result (Option (List (Value × Value))) :=
  c.ofKind "ValueMap" .map fun
    | .map entries => some entries
    | _ => none

/-- The definition and the components of a user-defined type value. -/
def udt (c : Cell) : Result (Option (UdtType × List (Option Bytes))) :=
  c.ofKind "UdtValue" .udt fun
    | .udt definition components => some (definition, components)
    | _ => none

/-- The types and the components of a tuple value. -/
def tuple (c : Cell) : Result (Option (List ColumnType × List (Option Bytes))) :=
  c.ofKind "TupleValue" .tuple fun
    | .tuple types components => some (types, components)
    | _ => none

end Cell

end WideRow
