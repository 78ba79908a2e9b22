import WideRow.Value.Basic

/-!
# Digests

Values are sorted into buckets by a digest of the numbers that describe them. Equal values have to
be described alike, so a zero has one description whatever its sign, and a value with components is
described by the components without their types. Values that are not equal may share a description;
a digest only narrows a search.
-/

namespace WideRow

/-- Any function that condenses a description into a bucket number. -/
abbrev Digest := List Nat → UInt64

/-- The digest in use: each number in turn is mixed into 64 bits and multiplied by a prime. -/
def mixDigest : Digest :=
  fun numbers => numbers.foldl (fun h n => (h ^^^ UInt64.ofNat n) * 0x100000001B3)
    0xCBF29CE484222325

namespace Binary64

/-- The bits of a number; 0 for both zeros. -/
def bitsOfNumber (x : Binary64) : Nat :=
  match x.classify with
  | .finite _ 0 _ => 0
  | _ => x.bits.toNat

end Binary64

namespace Value

/-- The bytes of components, an absent one told from an empty one. -/
def describeComponents (components : List (Option Bytes)) : List Nat :=
  components.length :: components.flatMap fun
    | none => [0]
    | some b => 1 :: b.length :: b.map UInt8.toNat

def describeVarint (v : Varint) : List Nat :=
  v.negative.toNat :: v.magnitude.length :: v.magnitude.map UInt32.toNat

def describeAddress : Address → List Nat
  | .v4 bits => [4, bits.toNat]
  | .v6 bits => [6, bits.toNat]

mutual

/-- The numbers that describe a value: its kind, then its content. -/
def describe : Value → List Nat
  | null => [0]
  | boolean v => [1, v.toNat]
  | tinyint v => [2, v.toUInt8.toNat]
  | smallint v => [3, v.toUInt16.toNat]
  | int v => [4, v.toUInt32.toNat]
  | bigint v => [5, v.toUInt64.toNat]
  | float v => [6, (Binary64.ofBinary32 v).bitsOfNumber]
  | double v => [7, v.bitsOfNumber]
  | decimal v => 8 :: v.scale.toUInt32.toNat :: describeVarint v.unscaled
  | varint v => 9 :: describeVarint v
  | text v => 10 :: v.length :: v.toList.map Char.toNat
  | blob v => 11 :: v.length :: v.map UInt8.toNat
  | uuid v => [12, v.bits.toNat]
  | inet v => 13 :: describeAddress v
  | date v => [14, v.toWire.toNat]
  | time v => [15, v.millis]
  | timestamp v => [16, v.millis.toUInt64.toNat]
  | duration v =>
    [17, v.months.toUInt32.toNat, v.days.toUInt32.toNat, v.nanoseconds.toUInt64.toNat]
  | list items => 18 :: items.length :: describeItems items
  | set items => 19 :: items.length :: describeItems items
  | map entries => 20 :: entries.length :: describeEntries entries
  | udt _ components => 21 :: describeComponents components
  | tuple _ components => 22 :: describeComponents components
termination_by structural v => v

def describeItems : List Value → List Nat
  | [] => []
  | x :: xs => x.describe ++ describeItems xs
termination_by structural v => v

def describeEntries : List (Value × Value) → List Nat
  | [] => []
  | (k, v) :: xs => k.describe ++ v.describe ++ describeEntries xs
termination_by structural v => v

end

end Value

end WideRow
