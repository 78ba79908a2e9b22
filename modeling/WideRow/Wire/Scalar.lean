import WideRow.Text.Utf8
import WideRow.Value.Basic

/-!
# Scalar values on the wire

Numbers are big-endian. A value of fixed width is refused at any other length, under the name of
its type.
-/

namespace WideRow.Scalar

/-- The bytes themselves, if there are as many as the type has. -/
def fixed (width : Nat) (typeName : String) (b : Bytes) : Result Bytes :=
  if b.length = width then .ok b else .error (.decode typeName (.width width b.length))

def decodeBoolean (b : Bytes) : Result Bool := do
  let b ← fixed 1 "boolean" b
  return Bytes.toNat b != 0

def decodeTinyint (b : Bytes) : Result Int8 := do
  let b ← fixed 1 "tinyint" b
  return Int8.ofInt (Bytes.toInt b)

def decodeSmallint (b : Bytes) : Result Int16 := do
  let b ← fixed 2 "smallint" b
  return Int16.ofInt (Bytes.toInt b)

def decodeInt (b : Bytes) : Result Int32 := do
  let b ← fixed 4 "int" b
  return Int32.ofInt (Bytes.toInt b)

/-- Decodes eight bytes of any type. -/
def decodeInt64 (typeName : String) (b : Bytes) : Result Int64 := do
  let b ← fixed 8 typeName b
  return Int64.ofInt (Bytes.toInt b)

def decodeFloat (b : Bytes) : Result Binary32 := do
  let b ← fixed 4 "float" b
  return ⟨UInt32.ofNat (Bytes.toNat b)⟩

/-- Decodes eight bytes of any type as a floating-point number. -/
def decodeDouble (typeName : String) (b : Bytes) : Result Binary64 := do
  let b ← fixed 8 typeName b
  return ⟨UInt64.ofNat (Bytes.toNat b)⟩

def decodeUuid (typeName : String) (b : Bytes) : Result Uuid := do
  let b ← fixed 16 typeName b
  return ⟨BitVec.ofNat 128 (Bytes.toNat b)⟩

/-- Four bytes are a short address and sixteen a long one. -/
def decodeInet (b : Bytes) : Result Address :=
  if b.length = 4 then .ok (.v4 (BitVec.ofNat 32 (Bytes.toNat b)))
  else if b.length = 16 then .ok (.v6 (BitVec.ofNat 128 (Bytes.toNat b)))
  else .error (.decode "inet" (.addressWidth b.length))

def decodeDate (b : Bytes) : Result Date := do
  let b ← fixed 4 "date" b
  Date.ofWire (UInt32.ofNat (Bytes.toNat b))

def decodeTime (b : Bytes) : Result TimeOfDay := do
  TimeOfDay.ofNanos (← decodeInt64 "time" b)

def decodeTimestamp (b : Bytes) : Result Timestamp := do
  return ⟨← decodeInt64 "timestamp" b⟩

/-- Decodes the text of a kind of text; of the kind `ascii` only ASCII bytes are text. -/
def decodeText (kind : ScalarKind) (b : Bytes) : Result String :=
  if kind = .ascii && !b.all (· < 0x80) then .error (.decode "ascii" .nonAscii)
  else
    match Text.Utf8.decode b with
    | .ok s => .ok s
    | .error fault => .error (.decode kind.name (.invalidUtf8 fault))

def decodeVarint (b : Bytes) : Result Varint :=
  if b.isEmpty then .error (.decode "varint" .emptyValue) else .ok (Varint.ofSignedBytes b)

/-- Decodes a value of a scalar kind. -/
def decode (kind : ScalarKind) (b : Bytes) : Result Value :=
  match kind with
  | .ascii | .text | .varchar => .text <$> decodeText kind b
  | .bigint | .counter => .bigint <$> decodeInt64 kind.name b
  | .blob => .ok (.blob b)
  | .boolean => .boolean <$> decodeBoolean b
  | .decimal => .decimal <$> Decimal.ofBytes b
  | .double => .double <$> decodeDouble "double" b
  | .float => .float <$> decodeFloat b
  | .int => .int <$> decodeInt b
  | .timestamp => .timestamp <$> decodeTimestamp b
  | .uuid | .timeuuid => .uuid <$> decodeUuid kind.name b
  | .varint => .varint <$> decodeVarint b
  | .inet => .inet <$> decodeInet b
  | .date => .date <$> decodeDate b
  | .time => .time <$> decodeTime b
  | .smallint => .smallint <$> decodeSmallint b
  | .tinyint => .tinyint <$> decodeTinyint b
  | .duration => .duration <$> Duration.ofBytes b

/-- The bytes of a value, if the scalar kind can hold it. -/
def encode? : ScalarKind → Value → Option Bytes
  | .ascii, .text s | .text, .text s | .varchar, .text s => some (Text.Utf8.encode s)
  | .bigint, .bigint v | .counter, .bigint v => some (Bytes.ofInt 8 v.toInt)
  | .boolean, .boolean v => some [if v then 1 else 0]
  | .decimal, .decimal v => some v.toBytes
  | .double, .double v => some (Bytes.ofNat 8 v.bits.toNat)
  | .float, .float v => some (Bytes.ofNat 4 v.bits.toNat)
  | .int, .int v => some (Bytes.ofInt 4 v.toInt)
  | .timestamp, .timestamp v => some (Bytes.ofInt 8 v.millis.toInt)
  | .uuid, .uuid v | .timeuuid, .uuid v => some v.toBytes
  | .varint, .varint v => some v.toSignedBytes
  | .inet, .inet v => some v.toBytes
  | .date, .date v => some (Bytes.ofNat 4 v.toWire.toNat)
  | .time, .time v => some (Bytes.ofInt 8 v.nanos.toInt)
  | .smallint, .smallint v => some (Bytes.ofInt 2 v.toInt)
  | .tinyint, .tinyint v => some (Bytes.ofInt 1 v.toInt)
  | .duration, .duration v => some v.toBytes
  | _, _ => none

end WideRow.Scalar
