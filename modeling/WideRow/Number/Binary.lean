/-!
# Binary floating point

Values of the two IEEE 754 interchange formats are their bits. A bit pattern is read as a class:
not a number, an infinity, or a signed multiple of a power of two. Rounding goes to the nearest
value of the format, a tie to the one with the even significand, and past the largest finite value
to infinity.
-/

namespace WideRow

-- Powers are those of the numbers themselves, whatever else is imported.
attribute [local instance (high)] instPowNat

/-- The field widths of a binary interchange format. -/
structure BinaryFormat where
  fractionBits : Nat
  exponentBits : Nat
  deriving DecidableEq, Repr

namespace BinaryFormat

def single : BinaryFormat := ⟨23, 8⟩

def double : BinaryFormat := ⟨52, 11⟩

/-- The all-ones exponent field, which marks infinities and what is no number. -/
def topExponent (f : BinaryFormat) : Nat :=
  2 ^ f.exponentBits - 1

/-- The exponent of the last place of the smallest values. -/
def leastExponent (f : BinaryFormat) : Int :=
  2 - 2 ^ (f.exponentBits - 1) - (f.fractionBits : Int)

def infinityBits (f : BinaryFormat) : Nat :=
  f.topExponent * 2 ^ f.fractionBits

def signBit (f : BinaryFormat) : Nat :=
  2 ^ (f.fractionBits + f.exponentBits)

end BinaryFormat

/-- What a bit pattern stands for. -/
inductive BinaryClass where
  | notANumber
  | infinite (negative : Bool)
  /-- The number `significand * 2 ^ exponent`, with a sign. -/
  | finite (negative : Bool) (significand : Nat) (exponent : Int)
  deriving DecidableEq, Repr

namespace BinaryFormat

def classify (f : BinaryFormat) (bits : Nat) : BinaryClass :=
  let negative := f.signBit ≤ bits
  let exponentField := bits / 2 ^ f.fractionBits % 2 ^ f.exponentBits
  let fraction := bits % 2 ^ f.fractionBits
  if exponentField == f.topExponent then
    if fraction == 0 then .infinite negative else .notANumber
  else if exponentField == 0 then .finite negative fraction f.leastExponent
  else .finite negative (2 ^ f.fractionBits + fraction) (f.leastExponent + exponentField - 1)

/-- A quotient rounded to a whole number, a tie to the even one. -/
def roundQuotient (numerator denominator : Nat) : Nat :=
  let q := numerator / denominator
  let r := numerator % denominator
  if 2 * r < denominator then q
  else if denominator < 2 * r then q + 1
  else if q % 2 == 0 then q
  else q + 1

/-- `numerator / denominator` in units of `2 ^ exponent`, rounded. -/
def roundScaled (numerator denominator : Nat) (exponent : Int) : Nat :=
  if exponent < 0 then roundQuotient (numerator * 2 ^ (-exponent).toNat) denominator
  else roundQuotient numerator (denominator * 2 ^ exponent.toNat)

/-- The exponent of the last place for a positive quotient: the one that leaves the significand
its full width, and not below the least one. -/
def placeOf (f : BinaryFormat) (numerator denominator : Nat) : Int :=
  let guess : Int := (Nat.log2 numerator : Int) - Nat.log2 denominator - f.fractionBits
  let reaches : Bool :=
    if guess + f.fractionBits < 0 then
      denominator ≤ numerator * 2 ^ (-(guess + f.fractionBits)).toNat
    else denominator * 2 ^ (guess + f.fractionBits).toNat ≤ numerator
  max f.leastExponent (if reaches then guess else guess - 1)

/-- The bits of the value nearest to a quotient. -/
def nearest (f : BinaryFormat) (negative : Bool) (numerator denominator : Nat) : Nat :=
  let sign := if negative then f.signBit else 0
  if numerator == 0 then sign
  else
    let place := f.placeOf numerator denominator
    let magnitude :=
      (place - f.leastExponent).toNat * 2 ^ f.fractionBits + roundScaled numerator denominator place
    sign + min magnitude f.infinityBits

end BinaryFormat

/-! ## The two formats as value types -/

structure Binary32 where
  bits : UInt32
  deriving DecidableEq, Repr

structure Binary64 where
  bits : UInt64
  deriving DecidableEq, Repr

namespace Binary32

def classify (x : Binary32) : BinaryClass :=
  BinaryFormat.single.classify x.bits.toNat

/-- Numeric equality: what is no number equals nothing, and the two zeros are equal. -/
def sameNumber (x y : Binary32) : Bool :=
  match x.classify, y.classify with
  | .notANumber, _ | _, .notANumber => false
  | .finite _ 0 _, .finite _ 0 _ => true
  | _, _ => x.bits == y.bits

end Binary32

namespace Binary64

def classify (x : Binary64) : BinaryClass :=
  BinaryFormat.double.classify x.bits.toNat

def zero : Binary64 := ⟨0⟩

/-- Numeric equality: what is no number equals nothing, and the two zeros are equal. -/
def sameNumber (x y : Binary64) : Bool :=
  match x.classify, y.classify with
  | .notANumber, _ | _, .notANumber => false
  | .finite _ 0 _, .finite _ 0 _ => true
  | _, _ => x.bits == y.bits

def infinity (negative : Bool) : Binary64 :=
  ⟨UInt64.ofNat ((if negative then BinaryFormat.double.signBit else 0) +
    BinaryFormat.double.infinityBits)⟩

def nearest (negative : Bool) (numerator denominator : Nat) : Binary64 :=
  ⟨UInt64.ofNat (BinaryFormat.double.nearest negative numerator denominator)⟩

/-- The value nearest to `± n * 10 ^ exponent`. Exponents so large or small that the answer is
infinity or zero are cut off before any power is taken. -/
def ofDecimal (negative : Bool) (n : Nat) (exponent : Int) : Binary64 :=
  if n == 0 then nearest negative 0 1
  else
    let digits : Int := (Nat.toDigits 10 n).length
    if 310 < digits + exponent then infinity negative
    else if digits + exponent < -330 then nearest negative 0 1
    else if exponent < 0 then nearest negative n (10 ^ (-exponent).toNat)
    else nearest negative (n * 10 ^ exponent.toNat) 1

/-- The 64-bit value of a 32-bit one. Every number is kept exactly, and what is no number keeps
its sign and payload and is marked quiet. -/
def ofBinary32 (x : Binary32) : Binary64 :=
  match x.classify with
  | .notANumber =>
    let n := x.bits.toNat
    let sign := if BinaryFormat.single.signBit ≤ n then BinaryFormat.double.signBit else 0
    let narrow := BinaryFormat.single.fractionBits
    let wide := BinaryFormat.double.fractionBits
    let payload := n % 2 ^ narrow * 2 ^ (wide - narrow)
    let quiet := if payload < 2 ^ (wide - 1) then 2 ^ (wide - 1) else 0
    ⟨UInt64.ofNat (sign + BinaryFormat.double.infinityBits + quiet + payload)⟩
  | .infinite negative => infinity negative
  | .finite negative significand exponent =>
    if exponent < 0 then nearest negative significand (2 ^ (-exponent).toNat)
    else nearest negative (significand * 2 ^ exponent.toNat) 1

/-! ## Whole numbers -/

/-- A whole number rounded to 53 significant bits; none past the largest finite value. -/
def roundWhole (n : Nat) : Option Nat :=
  let place := Nat.log2 n - 52
  let rounded := BinaryFormat.roundQuotient n (2 ^ place) * 2 ^ place
  if rounded < 2 ^ (1024 : Nat) then some rounded else none

/-- One step of the sum of base `2 ^ 32` limbs: both the product and the sum are rounded. None
stands for infinity, which stays. -/
def appendLimb (sum : Option Nat) (limb : UInt32) : Option Nat := do
  let shifted ← roundWhole ((← sum) * 4294967296)
  roundWhole (shifted + limb.toNat)

/-- The sum of limbs, topmost first, rounded after every step. -/
def ofLimbsTopFirst (negative : Bool) (limbs : List UInt32) : Binary64 :=
  match limbs.foldl appendLimb (some 0) with
  | some n => nearest negative n 1
  | none => infinity negative

end Binary64

end WideRow
