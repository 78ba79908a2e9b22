import WideRow.Number.Binary
import WideRow.Number.Varint

/-!
# Decimals of any precision

A decimal is an unscaled integer and a 32-bit scale: the number `unscaled * 10 ^ -scale`. Trailing
zeros count, so `1.0` and `1.00` are different values. The text is positional while the scale is
not negative and the first digit stands at `10 ^ -6` or above, and scientific otherwise; its length
never grows with the scale.
-/

namespace WideRow

-- Powers are those of the numbers themselves, whatever else is imported.
attribute [local instance (high)] instPowNat

structure Decimal where
  unscaled : Varint
  scale : Int32
  deriving DecidableEq

namespace Decimal

def ofInt64 (i : Int64) : Decimal :=
  ⟨Varint.ofInt64 i, 0⟩

/-! ## Wire form -/

/-- Four bytes of scale, then the bytes of the unscaled integer. -/
def toBytes (d : Decimal) : Bytes :=
  Bytes.ofInt 4 d.scale.toInt ++ d.unscaled.toSignedBytes

def ofBytes (b : Bytes) : Result Decimal :=
  if b.length < 5 then .error (.decode "decimal" (.decimalWidth b.length))
  else .ok ⟨Varint.ofSignedBytes (b.drop 4), Int32.ofInt (Bytes.toInt (b.take 4))⟩

/-! ## Rescaling -/

/-- The most digits that rescaling appends. -/
def maxAppendedDigits : Nat := 4096

/-- The limbs of `l * 10 ^ digits`, up to nine digits at a time. -/
def appendDigits (l : Limbs) (digits : Nat) : Limbs :=
  if digits = 0 then l
  else appendDigits (Limbs.mulAdd l (UInt32.ofNat (10 ^ min digits 9)) 0) (digits - min digits 9)
termination_by digits

/-- The limbs of `l / 10 ^ digits`, if every digit dropped is a zero. -/
def dropZeros (l : Limbs) : Nat → Option Limbs
  | 0 => some l
  | digits + 1 =>
    let (quotient, remainder) := Limbs.divRem l 10
    if remainder = 0 then dropZeros quotient digits else none

/-- The same number with another scale. Fails if a digit that is not zero would be dropped, or too
many digits appended. -/
def withScale (d : Decimal) (scale : Int32) : Result Decimal :=
  if scale = d.scale then .ok d
  else if d.unscaled.isZero then .ok ⟨Varint.zero, scale⟩
  else
    let invalid := ClientError.invalidScale d.scale.toInt scale.toInt
    let change := scale.toInt - d.scale.toInt
    if 0 < change then
      if (maxAppendedDigits : Int) < change then .error invalid
      else
        .ok ⟨Varint.ofSignAndLimbs d.unscaled.negative
          (appendDigits d.unscaled.magnitude change.toNat), scale⟩
    -- A number that is not zero has fewer zeros at its end than digits.
    else if (d.unscaled.digitCount : Int) ≤ -change then .error invalid
    else
      match dropZeros d.unscaled.magnitude (-change).toNat with
      | some l => .ok ⟨Varint.ofSignAndLimbs d.unscaled.negative l, scale⟩
      | none => .error invalid

/-! ## Text -/

/-- The exponent of the first digit's place. -/
def adjustedExponent (digitCount : Nat) (scale : Int32) : Int :=
  (digitCount : Int) - 1 - scale.toInt

def isPlain (digitCount : Nat) (scale : Int32) : Bool :=
  0 ≤ scale.toInt && -6 ≤ adjustedExponent digitCount scale

/-- Digits with a point before the last `scale` of them, after zeros if there are too few. -/
def plainNumeral (ds : List Char) (scale : Nat) : List Char :=
  if scale = 0 then ds
  else if scale < ds.length then
    ds.take (ds.length - scale) ++ '.' :: ds.drop (ds.length - scale)
  else '0' :: '.' :: List.replicate (scale - ds.length) '0' ++ ds

/-- The numeral of an exponent with its sign always written. -/
def signedExponent (e : Int) : List Char :=
  (if 0 ≤ e then '+' else '-') :: Text.digits e.natAbs

/-- One digit, the rest after a point, and the exponent of the first digit. -/
def scientificNumeral (ds : List Char) (exponent : Int) : List Char :=
  ds.take 1 ++ (if ds.length ≤ 1 then [] else '.' :: ds.drop 1) ++ 'E' :: signedExponent exponent

def magnitudeNumeral (ds : List Char) (scale : Int32) : List Char :=
  if isPlain ds.length scale then plainNumeral ds scale.toInt.toNat
  else scientificNumeral ds (adjustedExponent ds.length scale)

def numeral (d : Decimal) : List Char :=
  let magnitude := magnitudeNumeral (Varint.magnitudeDigits d.unscaled.magnitude) d.scale
  if d.unscaled.negative then '-' :: magnitude else magnitude

def text (d : Decimal) : String :=
  String.ofList d.numeral

/-! ## Reading text -/

def isExponentMark (c : Char) : Bool :=
  c == 'e' || c == 'E'

/-- The part before the exponent mark, and the exponent; 0 without a mark. None if the exponent is
no 32-bit integer. -/
def splitExponent (cs : List Char) : Option (List Char × Int32) :=
  match cs.span fun c => !isExponentMark c with
  | (mantissa, []) => some (mantissa, 0)
  | (mantissa, _ :: exponent) => (Text.readInt32? exponent).map fun e => (mantissa, e)

/-- The parts before and after the first point; none after it without a point. -/
def splitPoint (cs : List Char) : List Char × List Char :=
  match cs.span (· != '.') with
  | (whole, []) => (whole, [])
  | (whole, _ :: fraction) => (whole, fraction)

/-- The difference, if it is a 32-bit integer. -/
def subtract32? (a b : Int) : Option Int32 :=
  if -2147483648 ≤ a - b ∧ a - b ≤ 2147483647 then some (Int32.ofInt (a - b)) else none

/-- Reads a sign, digits with an optional point among or around them, and an optional exponent.
Blanks may stand before the point of a whole number, and before its exponent. -/
def ofNumeral? (cs : List Char) : Option Decimal := do
  let (mantissa, exponent) ← splitExponent cs
  let (whole, fraction) := splitPoint mantissa
  let bare := whole == [] || whole == ['-'] || whole == ['+']
  if !fraction.all Char.isDigit || (bare && fraction.isEmpty) then none
  else if (2147483647 : Nat) < fraction.length then none
  else
    let digits := (if bare then whole ++ ['0'] else whole) ++ fraction
    let unscaled ← Varint.ofNumeral? (Text.trimChars digits)
    let scale ← subtract32? fraction.length exponent.toInt
    return ⟨unscaled, scale⟩

/-- Reads a decimal with blanks around it. -/
def parse (s : String) : Result Decimal :=
  match ofNumeral? (Text.trimChars s.toList) with
  | some d => .ok d
  | none => .error (.decode "decimal" (.notDecimal s))

/-! ## Nearest binary value -/

/-- The 64-bit binary value nearest to the number. -/
def toBinary64 (d : Decimal) : Binary64 :=
  Binary64.ofDecimal d.unscaled.negative (Limbs.toNat d.unscaled.magnitude) (-d.scale.toInt)

end Decimal

/-- The limbs of an integer summed as 64-bit binary values, topmost first. -/
def Varint.toBinary64 (v : Varint) : Binary64 :=
  Binary64.ofLimbsTopFirst v.negative v.magnitude.reverse

end WideRow
