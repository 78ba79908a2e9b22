import WideRow.Bytes

/-!
# Variable-length integers

An unsigned 64-bit integer takes one to nine bytes. As many further bytes follow the first one as it
has leading one bits, and the bits below them are the topmost bits of the number. A signed integer
is written as an unsigned one in zigzag order: 0, -1, 1, -2, 2, ...
-/

namespace WideRow.Vint

-- Powers are those of the numbers themselves, whatever else is imported.
attribute [local instance (high)] instPowNat

/-- The number of leading one bits of a byte. -/
def leadingOnes (x : UInt8) : Nat :=
  let n := x.toNat
  if n < 0x80 then 0
  else if n < 0xC0 then 1
  else if n < 0xE0 then 2
  else if n < 0xF0 then 3
  else if n < 0xF8 then 4
  else if n < 0xFC then 5
  else if n < 0xFE then 6
  else if n < 0xFF then 7
  else 8

/-- A first byte with `extra` leading one bits and nothing else. -/
def marker (extra : Nat) : Nat :=
  256 - 2 ^ (8 - extra)

/-- Appends that many bytes to a number. None if there are too few. -/
def readTail (n : Nat) : Nat → Bytes → Option (Nat × Bytes)
  | 0, rest => some (n, rest)
  | _ + 1, [] => none
  | extra + 1, x :: rest => readTail (n * 256 + x.toNat) extra rest

/-- Reads one integer off the front. None if the bytes end too early. -/
def read : Bytes → Option (UInt64 × Bytes)
  | [] => none
  | x :: rest =>
    let extra := leadingOnes x
    (readTail (x.toNat % 2 ^ (8 - extra)) extra rest).map fun (n, rest) =>
      (UInt64.ofNat n, rest)

/-- How many bytes follow the first one: one for every seven bits past the first seven, and at most
eight, where the first byte has no room left for the number. -/
def extraBytes (v : UInt64) : Nat :=
  min 8 (Nat.log2 v.toNat / 7)

/-- The shortest bytes of an integer. -/
def write (v : UInt64) : Bytes :=
  let extra := extraBytes v
  UInt8.ofNat (marker extra + v.toNat / 256 ^ extra) :: Bytes.ofNat extra v.toNat

/-- The place of a signed integer in zigzag order. -/
def zigzag (i : Int64) : UInt64 :=
  if i < 0 then UInt64.ofNat (2 * i.toInt.natAbs - 1) else UInt64.ofNat (2 * i.toInt.natAbs)

/-- The signed integer at a place in zigzag order. -/
def unzigzag (v : UInt64) : Int64 :=
  if v.toNat % 2 = 0 then Int64.ofInt (v.toNat / 2) else Int64.ofInt (-(v.toNat / 2 : Int) - 1)

end WideRow.Vint
