/-!
# Byte strings

A byte string is a list of bytes. Read as a number, it is big-endian: the first byte weighs most.
A signed reading is two's complement at the string's own length, so `ff` is -1 and `00ff` is 255.
-/

namespace WideRow

-- Powers are those of the numbers themselves, whatever else is imported.
attribute [local instance (high)] instPowNat

abbrev Bytes := List UInt8

namespace Bytes

/-! ## Numbers -/

/-- The number a byte string writes, most significant byte first. The empty string writes 0. -/
def toNat (b : Bytes) : Nat :=
  b.foldl (fun n x => n * 256 + x.toNat) 0

/-- Whether the top bit is set, which marks a negative number in a signed reading. -/
def signBit (b : Bytes) : Bool :=
  match b with
  | [] => false
  | x :: _ => 128 ≤ x.toNat

/-- The number a byte string writes in two's complement. -/
def toInt (b : Bytes) : Int :=
  if signBit b then (toNat b : Int) - 256 ^ b.length else toNat b

/-- The lowest `width` bytes of a number, most significant first. -/
def ofNat : Nat → Nat → Bytes
  | 0, _ => []
  | width + 1, n => ofNat width (n / 256) ++ [UInt8.ofNat n]

/-- The lowest `width` bytes of a number in two's complement. -/
def ofInt (width : Nat) (i : Int) : Bytes :=
  ofNat width (i % 256 ^ width).toNat

/-! ## Hexadecimal text -/

/-- The two hexadecimal digits of a byte, in lower case. -/
def hexByte (x : UInt8) : List Char :=
  [Nat.digitChar (x.toNat / 16), Nat.digitChar (x.toNat % 16)]

def hex (b : Bytes) : String :=
  String.ofList (b.flatMap hexByte)

/-- The value of a hexadecimal digit in either case. -/
def hexDigit? (c : Char) : Option Nat :=
  if c.isDigit then some (c.toNat - '0'.toNat)
  else if 'a' ≤ c && c ≤ 'f' then some (c.toNat - 'a'.toNat + 10)
  else if 'A' ≤ c && c ≤ 'F' then some (c.toNat - 'A'.toNat + 10)
  else none

/-- The bytes that hexadecimal digits write, two digits for each. -/
def ofHexDigits? : List Char → Option Bytes
  | [] => some []
  | [_] => none
  | upper :: lower :: rest => do
    let x := UInt8.ofNat ((← hexDigit? upper) * 16 + (← hexDigit? lower))
    return x :: (← ofHexDigits? rest)

/-- The bytes that a text writes in hexadecimal. -/
def ofHex? (s : String) : Option Bytes :=
  ofHexDigits? s.toList

end Bytes

end WideRow
