import WideRow.Number.Binary
import WideRow.Text.Numeral

/-!
# The shortest decimal text of a binary value

A finite value is written with the fewest decimal digits that read back as the same value, and of
those with the digits nearest to it; a tie goes up. All arithmetic is exact. The digits stand in
positional notation whatever their size: no exponent, and no point on whole numbers.
-/

namespace WideRow.Shortest

-- Powers are those of the numbers themselves, whatever else is imported.
attribute [local instance (high)] instPowNat

/-- The decimals that read back as one value: those between `low / unit` and `high / unit`, the
ends included where `closed` says so, around the value `center / unit`. -/
structure Interval where
  low : Nat
  center : Nat
  high : Nat
  unit : Nat
  closed : Bool

/-- The interval of `significand * 2 ^ exponent`. Below a power of two the neighbour is at half the
distance, save for the smallest values. -/
def intervalOf (f : BinaryFormat) (significand : Nat) (exponent : Int) : Interval :=
  let narrow := significand == 2 ^ f.fractionBits && exponent != f.leastExponent
  let scale := 2 ^ (exponent - 2).toNat
  { low := (4 * significand - if narrow then 1 else 2) * scale
    center := 4 * significand * scale
    high := (4 * significand + 2) * scale
    unit := 2 ^ (2 - exponent).toNat
    closed := significand % 2 == 0 }

/-- Whether `n / d` lies in the interval. -/
def Interval.contains (i : Interval) (n d : Nat) : Bool :=
  if i.closed then i.low * d ≤ n * i.unit && n * i.unit ≤ i.high * d
  else i.low * d < n * i.unit && n * i.unit < i.high * d

/-- The multiple of `10 ^ place` in the interval, if its neighbours on that grid have one: the
nearer of the two, and the upper one of two equally near. -/
def onGrid (i : Interval) (place : Int) : Option Nat :=
  let up := 10 ^ place.toNat
  let down := 10 ^ (-place).toNat
  let below := i.center * down / (i.unit * up)
  let hitBelow := i.contains (below * up) down
  let hitAbove := i.contains ((below + 1) * up) down
  if hitBelow && hitAbove then
    if 2 * i.center * down < (2 * below + 1) * up * i.unit then some below else some (below + 1)
  else if hitBelow then some below
  else if hitAbove then some (below + 1)
  else none

/-- Searches coarser grids before finer ones. -/
def search (i : Interval) : Nat → Int → Nat × Int
  | 0, place => (i.center, place)
  | steps + 1, place =>
    match onGrid i place with
    | some n => (n, place)
    | none => search i steps (place - 1)

/-- A place above the first digit of the interval's upper end. -/
def topPlace (i : Interval) : Int :=
  let bits : Int := (Nat.log2 i.high : Int) - Nat.log2 i.unit + 1
  if 0 ≤ bits then bits * 30103 / 100000 + 1 else bits * 30102 / 100000 + 1

/-- The shortest digits of a positive value and the place of the last one. -/
def digitsOf (f : BinaryFormat) (significand : Nat) (exponent : Int) : Nat × Int :=
  let i := intervalOf f significand exponent
  search i 24 (topPlace i)

/-- A number `n * 10 ^ place` in positional notation. -/
def positional (n : Nat) (place : Int) : List Char :=
  let ds := Text.digits n
  if 0 ≤ place then ds ++ List.replicate place.toNat '0'
  else
    let fraction := (-place).toNat
    if fraction < ds.length then
      ds.take (ds.length - fraction) ++ '.' :: ds.drop (ds.length - fraction)
    else '0' :: '.' :: List.replicate (fraction - ds.length) '0' ++ ds

def ofClass (f : BinaryFormat) : BinaryClass → List Char
  | .notANumber => ['N', 'a', 'N']
  | .infinite negative => (if negative then ['-'] else []) ++ ['i', 'n', 'f']
  | .finite negative significand exponent =>
    let magnitude :=
      if significand == 0 then ['0']
      else
        let (n, place) := digitsOf f significand exponent
        positional n place
    (if negative then ['-'] else []) ++ magnitude

end WideRow.Shortest

namespace WideRow

/-- The shortest text that reads back at 32 bits. -/
def Binary32.text (x : Binary32) : String :=
  String.ofList (Shortest.ofClass .single x.classify)

/-- The shortest text that reads back at 64 bits. -/
def Binary64.text (x : Binary64) : String :=
  String.ofList (Shortest.ofClass .double x.classify)

end WideRow
