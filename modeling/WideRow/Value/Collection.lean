import Std.Data.HashMap
import WideRow.Value.Digest

/-!
# Sets and maps of values

A set keeps the first of equal values and a map the first of equal keys, both in the order of
insertion. Each has an index from digests to positions, so that a look-up compares only the values
of one bucket. Inserting under a key that is there replaces the value in place.
-/

namespace WideRow

/-- The description of a number inside the description of a collection. -/
def Value.describeInt? : Value → Option String
  | int v => some s!"Int({v.toInt})"
  | _ => none

/-! ## Index -/

/-- Positions of stored values, by the digest of the value. -/
structure ValueIndex where
  buckets : Std.HashMap UInt64 (Array Nat)

namespace ValueIndex

def empty : ValueIndex :=
  ⟨∅⟩

/-- The first position in a bucket that passes a test. -/
def find? (index : ValueIndex) (bucket : UInt64) (test : Nat → Bool) : Option Nat :=
  (index.buckets.getD bucket #[]).find? test

/-- Puts a position at the end of a bucket. -/
def push (index : ValueIndex) (bucket : UInt64) (position : Nat) : ValueIndex :=
  ⟨index.buckets.insert bucket ((index.buckets.getD bucket #[]).push position)⟩

end ValueIndex

/-! ## Sets -/

structure ValueSet where
  items : Array Value
  index : ValueIndex

namespace ValueSet

def empty : ValueSet :=
  ⟨#[], .empty⟩

def size (s : ValueSet) : Nat :=
  s.items.size

/-- The values in the order of insertion. -/
def toList (s : ValueSet) : List Value :=
  s.items.toList

/-- The position of a value equal to the given one. -/
def position? (digest : Digest) (s : ValueSet) (v : Value) : Option Nat :=
  s.index.find? (digest v.describe) fun i =>
    match s.items[i]? with
    | some item => item.same v
    | none => false

def contains (digest : Digest) (s : ValueSet) (v : Value) : Bool :=
  (s.position? digest v).isSome

/-- Adds a value unless an equal one is there, and tells whether it was added. -/
def insert (digest : Digest) (s : ValueSet) (v : Value) : Bool × ValueSet :=
  if s.contains digest v then (false, s)
  else (true, ⟨s.items.push v, s.index.push (digest v.describe) s.items.size⟩)

def ofList (digest : Digest) (vs : List Value) : ValueSet :=
  vs.foldl (fun s v => (s.insert digest v).2) empty

/-- A one-line description of a set of numbers. -/
def describe? (s : ValueSet) : Option String := do
  let items ← s.toList.mapM Value.describeInt?
  return "\x7b" ++ ", ".intercalate items ++ "\x7d"

end ValueSet

/-! ## Maps -/

structure ValueMap where
  entries : Array (Value × Value)
  index : ValueIndex

namespace ValueMap

def empty : ValueMap :=
  ⟨#[], .empty⟩

def size (m : ValueMap) : Nat :=
  m.entries.size

/-- The entries in the order in which their keys were first inserted. -/
def toList (m : ValueMap) : List (Value × Value) :=
  m.entries.toList

def keys (m : ValueMap) : List Value :=
  m.toList.map (·.1)

/-- The position of the entry whose key equals the given one. -/
def position? (digest : Digest) (m : ValueMap) (k : Value) : Option Nat :=
  m.index.find? (digest k.describe) fun i =>
    match m.entries[i]? with
    | some entry => entry.1.same k
    | none => false

def get? (digest : Digest) (m : ValueMap) (k : Value) : Option Value :=
  match m.position? digest k with
  | some i => m.entries[i]?.map (·.2)
  | none => none

/-- Sets the value of a key, and tells the value it had. A key that is there keeps its place. -/
def insert (digest : Digest) (m : ValueMap) (k v : Value) : Option Value × ValueMap :=
  match m.position? digest k with
  | some i =>
    (m.entries[i]?.map (·.2), ⟨m.entries.modify i fun entry => (entry.1, v), m.index⟩)
  | none => (none, ⟨m.entries.push (k, v), m.index.push (digest k.describe) m.entries.size⟩)

def ofList (digest : Digest) (entries : List (Value × Value)) : ValueMap :=
  entries.foldl (fun m entry => (m.insert digest entry.1 entry.2).2) empty

/-- A one-line description of a map from numbers to numbers. -/
def describe? (m : ValueMap) : Option String := do
  let entries ← m.toList.mapM fun (k, v) =>
    return (← k.describeInt?) ++ ": " ++ (← v.describeInt?)
  return "\x7b" ++ ", ".intercalate entries ++ "\x7d"

end ValueMap

namespace Value

/-- A set value: equal items are kept once. -/
def setOf (items : List Value) : Value :=
  set (ValueSet.ofList mixDigest items).toList

/-- A map value: of entries with equal keys the last value is kept, at the place of the first. -/
def mapOf (entries : List (Value × Value)) : Value :=
  map (ValueMap.ofList mixDigest entries).toList

end Value

end WideRow
