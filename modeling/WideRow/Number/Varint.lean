import WideRow.Error.Basic
import WideRow.Number.Limbs
import WideRow.Text.Character
import WideRow.Text.Numeral

/-!
# Integers of any size

A varint is a sign and a trimmed magnitude, and zero has no sign, so equal numbers are equal
values. On the wire it is the shortest two's complement byte string; as text it is the canonical
decimal numeral, written nine digits at a time.
-/

namespace WideRow

structure Varint where
  negative : Bool
  magnitude : Limbs
  isTrimmed : magnitude.IsTrimmed
  nonzero_of_negative : negative = true → magnitude ≠ []
  deriving DecidableEq

namespace Varint

def toInt (v : Varint) : Int :=
  if v.negative then -(Limbs.toNat v.magnitude : Int) else Limbs.toNat v.magnitude

/-- The varint with the given sign and limbs, brought into the normal form. -/
def ofSignAndLimbs (negative : Bool) (l : Limbs) : Varint where
  negative := negative && !(Limbs.trim l).isEmpty
  magnitude := Limbs.trim l
  isTrimmed := Limbs.isTrimmed_trim l
  nonzero_of_negative := by simp

def zero : Varint :=
  ofSignAndLimbs false []

instance : Inhabited Varint :=
  ⟨zero⟩

def isZero (v : Varint) : Bool :=
  v.magnitude.isEmpty

/-! ## Wire form -/

/-- The bytes with every bit inverted and 1 added, and whether the addition ran over the top. -/
def negateCarry : Bytes → Bytes × Bool
  | [] => ([], true)
  | x :: xs =>
    let lower := negateCarry xs
    if lower.2 then ((~~~x + 1) :: lower.1, ~~~x + 1 == 0) else (~~~x :: lower.1, false)

/-- The two's complement negation of bytes, at their own length. -/
def negateBytes (b : Bytes) : Bytes :=
  (negateCarry b).1

/-- The integer that bytes denote in two's complement. Empty bytes denote zero. -/
def ofSignedBytes (b : Bytes) : Varint :=
  if Bytes.signBit b then ofSignAndLimbs true (Limbs.ofBytes (negateBytes b))
  else ofSignAndLimbs false (Limbs.ofBytes b)

/-- Drops the sign bytes that the byte after them repeats. -/
def dropSignBytes : Bytes → Bytes
  | x :: y :: rest =>
    if x == 0xFF && 0x80 ≤ y then dropSignBytes (y :: rest) else x :: y :: rest
  | b => b

/-- The shortest bytes that denote the integer in two's complement. -/
def toSignedBytes (v : Varint) : Bytes :=
  if v.isZero then [0]
  else
    let magnitude := Limbs.toBytes v.magnitude
    if v.negative then
      let b := negateBytes magnitude
      dropSignBytes (if Bytes.signBit b then b else 0xFF :: b)
    else if Bytes.signBit magnitude then 0 :: magnitude
    else magnitude

/-! ## Machine integers -/

def ofInt64 (i : Int64) : Varint :=
  let magnitude := i.toInt.natAbs
  ofSignAndLimbs (i < 0) [UInt32.ofNat magnitude, UInt32.ofNat (magnitude / 4294967296)]

/-- The lowest 64 bits of the magnitude. -/
def lowWord (v : Varint) : UInt64 :=
  match v.magnitude with
  | [] => 0
  | [low] => low.toUInt64
  | low :: high :: _ => (high.toUInt64 <<< 32) ||| low.toUInt64

/-- The number as a 64-bit integer, where it is one. -/
def toInt64? (v : Varint) : Option Int64 :=
  if 2 < v.magnitude.length then none
  else if v.negative then
    if v.lowWord ≤ 0x8000000000000000 then some (-v.lowWord).toInt64 else none
  else if v.lowWord ≤ 0x7FFFFFFFFFFFFFFF then some v.lowWord.toInt64
  else none

/-- The 64-bit integer that agrees with the number in its lowest 64 bits. -/
def toInt64Wrapping (v : Varint) : Int64 :=
  if v.negative then (-v.lowWord).toInt64 else v.lowWord.toInt64

/-! ## Order -/

def order (v w : Varint) : Ordering :=
  match v.negative, w.negative with
  | false, true => .gt
  | true, false => .lt
  | false, false => Limbs.order v.magnitude w.magnitude
  | true, true => Limbs.order w.magnitude v.magnitude

/-! ## Text -/

/-- One more than the greatest number of nine digits. -/
def digitChunk : UInt32 := 1000000000

/-- The magnitude in base `10 ^ 9`, least significant chunk first. -/
def chunks (l : Limbs) : List UInt32 :=
  if h : l = [] then []
  else
    have := @Limbs.divRem_decreases l h digitChunk (by decide)
    (Limbs.divRem l digitChunk).2 :: chunks (Limbs.divRem l digitChunk).1
termination_by Limbs.toNat l + l.length

/-- The digits of chunks, topmost first: nine for each but the first. -/
def chunkDigits : List UInt32 → List Char
  | [] => ['0']
  | top :: rest => Text.digits top.toNat ++ rest.flatMap fun x => Text.paddedDigits 9 x.toNat

/-- The decimal digits of a magnitude; `0` for zero. -/
def magnitudeDigits (l : Limbs) : List Char :=
  chunkDigits (chunks l).reverse

def numeral (v : Varint) : List Char :=
  if v.negative then '-' :: magnitudeDigits v.magnitude else magnitudeDigits v.magnitude

def text (v : Varint) : String :=
  String.ofList v.numeral

/-- How many decimal digits the magnitude has; 1 for zero. -/
def digitCount (v : Varint) : Nat :=
  (magnitudeDigits v.magnitude).length

/-- The limbs of a number that digits write. -/
def limbsOfDigits (ds : List Char) : Limbs :=
  ds.foldl (fun l d => Limbs.mulAdd l 10 (UInt32.ofNat (d.toNat - '0'.toNat))) []

/-- A numeral split into whether a minus sign stands in front, and the rest without a sign. -/
def splitSign : List Char → Bool × List Char
  | '-' :: rest => (true, rest)
  | '+' :: rest => (false, rest)
  | cs => (false, cs)

/-- Reads an optional sign and one or more digits. -/
def ofNumeral? (cs : List Char) : Option Varint :=
  let (negative, ds) := splitSign cs
  if ds.isEmpty || !ds.all Char.isDigit then none
  else some (ofSignAndLimbs negative (limbsOfDigits ds))

/-- Reads a numeral with blanks around it. -/
def parse (s : String) : Result Varint :=
  match ofNumeral? (Text.trimChars s.toList) with
  | some v => .ok v
  | none => .error (.decode "varint" (.notInteger (Text.trim s)))

end Varint

end WideRow
