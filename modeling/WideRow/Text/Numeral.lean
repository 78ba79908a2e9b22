/-!
# Decimal numerals of bounded integers

A numeral is an optional sign and one or more of the digits `0` to `9`. Reading goes from left to
right and stops at the first thing wrong: a character that is no digit, or a number above the
limit.
-/

namespace WideRow.Text

/-- Why a text is no numeral of a bounded integer. -/
inductive NumeralFault where
  | empty
  | invalidDigit
  | tooLarge
  deriving DecidableEq, Repr

def NumeralFault.message : NumeralFault → String
  | .empty => "cannot parse integer from empty string"
  | .invalidDigit => "invalid digit found in string"
  | .tooLarge => "number too large to fit in target type"

/-- Reads digits on from `n`, which they continue, up to a limit. -/
def readDigits (limit : Nat) (n : Nat) : List Char → Except NumeralFault Nat
  | [] => .ok n
  | c :: cs =>
    if !c.isDigit then .error .invalidDigit
    else
      let next := n * 10 + (c.toNat - '0'.toNat)
      if limit < next then .error .tooLarge else readDigits limit next cs

/-- Reads a numeral without a minus sign. -/
def readNatural (limit : Nat) : List Char → Except NumeralFault Nat
  | [] => .error .empty
  | ['+'] => .error .invalidDigit
  | '+' :: digits => readDigits limit 0 digits
  | digits => readDigits limit 0 digits

/-- Reads a numeral between `-limit - 1` and `limit`. -/
def readInteger (limit : Nat) : List Char → Except NumeralFault Int
  | ['-'] => .error .invalidDigit
  | '-' :: digits => (readDigits (limit + 1) 0 digits).map fun n => -(n : Int)
  | cs => (readNatural limit cs).map fun n => (n : Int)

/-- Reads a numeral of a 32-bit signed integer. -/
def readInt32? (cs : List Char) : Option Int32 :=
  match readInteger 2147483647 cs with
  | .ok i => some (Int32.ofInt i)
  | .error _ => none

/-- The decimal digits of a number, without leading zeros; `0` for zero. -/
def digits (n : Nat) : List Char :=
  Nat.toDigits 10 n

/-- The decimal digits of a number, with zeros in front up to a width. -/
def paddedDigits (width : Nat) (n : Nat) : List Char :=
  List.replicate (width - (digits n).length) '0' ++ digits n

end WideRow.Text
