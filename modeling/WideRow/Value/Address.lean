import WideRow.Bytes
import WideRow.Text.Numeral

/-!
# Network addresses and identifiers

An address has 32 bits or 128. The short form is four decimal numbers with points. The long form is
eight hexadecimal groups with colons, where the first of the longest runs of two or more zero groups
is written as two colons; an address that stands for a short one shows it after `::ffff:`. An
identifier is 128 bits in hexadecimal, in five groups with hyphens.
-/

namespace WideRow

-- Powers are those of the numbers themselves, whatever else is imported.
attribute [local instance (high)] instPowNat

/-! ## Addresses -/

inductive Address where
  | v4 (bits : BitVec 32)
  | v6 (bits : BitVec 128)
  deriving DecidableEq, Repr

namespace Address

def toBytes : Address → Bytes
  | v4 bits => Bytes.ofNat 4 bits.toNat
  | v6 bits => Bytes.ofNat 16 bits.toNat

/-- Four decimal numbers with points. -/
def dotted (n : Nat) : List Char :=
  Text.digits (n / 16777216 % 256) ++ '.' :: Text.digits (n / 65536 % 256) ++
    '.' :: Text.digits (n / 256 % 256) ++ '.' :: Text.digits (n % 256)

/-- The eight groups of 16 bits, topmost first. -/
def groups (n : Nat) : List Nat :=
  [7, 6, 5, 4, 3, 2, 1, 0].map fun i : Nat => n / 65536 ^ i % 65536

/-- The length of the run of zeros at the front. -/
def zeroRun (gs : List Nat) : Nat :=
  (gs.takeWhile (· == 0)).length

/-- Start and length of the first of the longest runs of zeros, the list starting at `start`. -/
def longestZeroRun (start : Nat) : List Nat → Nat × Nat
  | [] => (start, 0)
  | g :: gs =>
    let here := zeroRun (g :: gs)
    let later := longestZeroRun (start + 1) gs
    if later.2 ≤ here then (start, here) else later

/-- Groups in hexadecimal with colons between them. -/
def colonSeparated (gs : List Nat) : List Char :=
  [':'].intercalate (gs.map (Nat.toDigits 16))

def groupedNumeral (gs : List Nat) : List Char :=
  let (start, length) := longestZeroRun 0 gs
  if 1 < length then
    colonSeparated (gs.take start) ++ ':' :: ':' :: colonSeparated (gs.drop (start + length))
  else colonSeparated gs

/-- Whether the long address stands for a short one: 80 zero bits and 16 one bits lead. -/
def isMapped (n : Nat) : Bool :=
  n / 4294967296 == 0xFFFF

def numeral : Address → List Char
  | v4 bits => dotted bits.toNat
  | v6 bits =>
    if isMapped bits.toNat then "::ffff:".toList ++ dotted (bits.toNat % 4294967296)
    else groupedNumeral (groups bits.toNat)

def text (a : Address) : String :=
  String.ofList a.numeral

/-! ### Reading text -/

/-- Reads one of the four decimal numbers: up to three digits, without a zero in front. -/
def readOctet? (cs : List Char) : Option Nat :=
  if cs.isEmpty || 3 < cs.length || !cs.all Char.isDigit || (1 < cs.length && cs.head? == some '0')
  then none
  else
    let n := Nat.ofDigitChars 10 cs 0
    if n < 256 then some n else none

/-- The parts of a text between the separators. -/
def splitAtEach (separator : Char) (cs : List Char) : List (List Char) :=
  match cs with
  | [] => [[]]
  | c :: rest =>
    match splitAtEach separator rest with
    | part :: parts => if c == separator then [] :: part :: parts else (c :: part) :: parts
    | [] => [[c]]

/-- Reads four decimal numbers with points. -/
def readDotted? (cs : List Char) : Option Nat := do
  let octets ← (splitAtEach '.' cs).mapM readOctet?
  if octets.length == 4 then some (octets.foldl (fun n x => n * 256 + x) 0) else none

/-- The number that hexadecimal digits write. -/
def readHex? (cs : List Char) : Option Nat :=
  cs.foldlM (fun n c => (Bytes.hexDigit? c).map (n * 16 + ·)) 0

/-- Reads groups with colons between them; the last may be a short address and count as two. -/
def readGroups? (cs : List Char) : Option (List Nat) :=
  if cs.isEmpty then some []
  else
    let parts := splitAtEach ':' cs
    let readGroup? (part : List Char) : Option Nat :=
      if part.isEmpty || 4 < part.length then none else readHex? part
    match parts.getLast? with
    | some last =>
      if last.contains '.' then do
        let gs ← parts.dropLast.mapM readGroup?
        let n ← readDotted? last
        return gs ++ [n / 65536, n % 65536]
      else parts.mapM readGroup?
    | none => none

/-- The parts before and after the first two colons in a row. -/
def splitDoubleColon? : List Char → Option (List Char × List Char)
  | ':' :: ':' :: rest => some ([], rest)
  | c :: rest => (splitDoubleColon? rest).map fun (front, back) => (c :: front, back)
  | [] => none

def ofGroups (gs : List Nat) : Address :=
  .v6 (BitVec.ofNat 128 (gs.foldl (fun n g => n * 65536 + g) 0))

/-- Reads a long address: eight groups, or fewer around two colons. -/
def readGrouped? (cs : List Char) : Option Address := do
  match splitDoubleColon? cs with
  | some (front, back) =>
    let before ← readGroups? front
    let after ← readGroups? back
    let given := before.length + after.length
    if front.contains '.' || 7 < given then none
    else some (ofGroups (before ++ List.replicate (8 - given) 0 ++ after))
  | none =>
    let gs ← readGroups? cs
    if gs.length == 8 then some (ofGroups gs) else none

def ofText? (s : String) : Option Address :=
  match readDotted? s.toList with
  | some n => some (.v4 (BitVec.ofNat 32 n))
  | none => readGrouped? s.toList

end Address

/-! ## Identifiers -/

structure Uuid where
  bits : BitVec 128
  deriving DecidableEq, Repr

namespace Uuid

def toBytes (u : Uuid) : Bytes :=
  Bytes.ofNat 16 u.bits.toNat

def numeral (u : Uuid) : List Char :=
  let ds := u.toBytes.flatMap Bytes.hexByte
  ds.take 8 ++ '-' :: (ds.drop 8).take 4 ++ '-' :: (ds.drop 12).take 4 ++
    '-' :: (ds.drop 16).take 4 ++ '-' :: ds.drop 20

def text (u : Uuid) : String :=
  String.ofList u.numeral

/-- Reads 32 hexadecimal digits, with or without hyphens between the five groups. -/
def ofText? (s : String) : Option Uuid := do
  let parts := Address.splitAtEach '-' s.toList
  let lengths := parts.map List.length
  if lengths == [8, 4, 4, 4, 12] || lengths == [32] then
    let n ← Address.readHex? parts.flatten
    return ⟨BitVec.ofNat 128 n⟩
  else none

end Uuid

end WideRow
