import WideRow.Error.Basic
import WideRow.Text.Numeral
import WideRow.Wire.Vint

/-!
# Durations

A duration has months, days and nanoseconds, none of which is converted into another, since months
and days differ in length. No two of them have opposite signs, so one sign stands for all. The text
names the amount of each unit, from years to nanoseconds, and leaves out those that are zero.
-/

namespace WideRow

/-- Whether no two of three numbers have opposite signs. -/
def SameSign (months days nanoseconds : Int) : Prop :=
  (0 ≤ months ∧ 0 ≤ days ∧ 0 ≤ nanoseconds) ∨ (months ≤ 0 ∧ days ≤ 0 ∧ nanoseconds ≤ 0)

instance (months days nanoseconds : Int) : Decidable (SameSign months days nanoseconds) :=
  inferInstanceAs (Decidable (_ ∨ _))

structure Duration where
  months : Int32
  days : Int32
  nanoseconds : Int64
  sameSign : SameSign months.toInt days.toInt nanoseconds.toInt
  deriving DecidableEq

namespace Duration

def ofParts (months days : Int32) (nanoseconds : Int64) : Result Duration :=
  if h : SameSign months.toInt days.toInt nanoseconds.toInt then
    .ok ⟨months, days, nanoseconds, h⟩
  else
    .error (.decode "duration" (.mixedSigns months.toInt days.toInt nanoseconds.toInt))

/-! ## Wire form -/

def toBytes (d : Duration) : Bytes :=
  Vint.write (Vint.zigzag (Int64.ofInt d.months.toInt)) ++
    Vint.write (Vint.zigzag (Int64.ofInt d.days.toInt)) ++
    Vint.write (Vint.zigzag d.nanoseconds)

/-- Reads the named part off the front. -/
def readPart (part : String) (b : Bytes) : Result (Int64 × Bytes) :=
  match Vint.read b with
  | some (v, rest) => .ok (Vint.unzigzag v, rest)
  | none => .error (.decode "duration" (.missingPart part))

/-- The 32-bit value of the named part. -/
def narrowPart (part : String) (i : Int64) : Result Int32 :=
  if -2147483648 ≤ i.toInt ∧ i.toInt ≤ 2147483647 then .ok (Int32.ofInt i.toInt)
  else .error (.decode "duration" (.partOutOfRange part))

/-- Reads three parts and nothing after them. -/
def ofBytes (b : Bytes) : Result Duration := do
  let (months, b) ← readPart "months" b
  let (days, b) ← readPart "days" b
  let (nanoseconds, b) ← readPart "nanoseconds" b
  if !b.isEmpty then throw (.decode "duration" (.trailing b.length))
  let months ← narrowPart "months" months
  let days ← narrowPart "days" days
  ofParts months days nanoseconds

/-! ## Text -/

def isNegative (d : Duration) : Bool :=
  d.months < 0 || d.days < 0 || d.nanoseconds < 0

/-- The units with their amounts, largest first. -/
def amounts (d : Duration) : List (Nat × List Char) :=
  let months := d.months.toInt.natAbs
  let nanos := d.nanoseconds.toInt.natAbs
  [(months / 12, ['y']), (months % 12, ['m', 'o']), (d.days.toInt.natAbs, ['d']),
    (nanos / 3600000000000, ['h']), (nanos / 60000000000 % 60, ['m']),
    (nanos / 1000000000 % 60, ['s']), (nanos / 1000000 % 1000, ['m', 's']),
    (nanos / 1000 % 1000, ['u', 's']), (nanos % 1000, ['n', 's'])]

/-- An amount with its unit; nothing for zero. -/
def amountNumeral (amount : Nat × List Char) : List Char :=
  if amount.1 = 0 then [] else Text.digits amount.1 ++ amount.2

def numeral (d : Duration) : List Char :=
  if d.months = 0 ∧ d.days = 0 ∧ d.nanoseconds = 0 then ['0', 's']
  else (if d.isNegative then ['-'] else []) ++ d.amounts.flatMap amountNumeral

def text (d : Duration) : String :=
  String.ofList d.numeral

end Duration

end WideRow
