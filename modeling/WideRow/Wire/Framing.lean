import WideRow.Bytes
import WideRow.Error.Basic

/-!
# Framing

Collections and structures are sequences of items. An item is a length in four bytes and that many
bytes; a negative length stands for an absent item and has no bytes after it. A collection announces
how many entries follow, and nothing may stand behind them. A structure goes on to the end of the
input.
-/

namespace WideRow.Framing

/-- Takes one item off the front. Fails with the number of bytes that were left where too few were:
before the length or after it. -/
def takeItem : Bytes → Except Nat (Option Bytes × Bytes)
  | x :: y :: z :: w :: rest =>
    let length := Bytes.toInt [x, y, z, w]
    if length < 0 then .ok (none, rest)
    else
      let body := rest.take length.toNat
      if body.length < length.toNat then .error rest.length
      else .ok (some body, rest.drop length.toNat)
  | short => .error short.length

/-- Takes that many items off the front. -/
def takeItems : Nat → Bytes → Except Nat (List (Option Bytes) × Bytes)
  | 0, b => .ok ([], b)
  | count + 1, b => do
    let (item, rest) ← takeItem b
    let (items, rest) ← takeItems count rest
    return (item :: items, rest)

theorem length_lt_of_takeItem {b rest : Bytes} {item : Option Bytes}
    (h : takeItem b = .ok (item, rest)) : rest.length < b.length := by
  unfold takeItem at h
  split at h
  · dsimp only at h
    split at h
    · cases h
      simp only [List.length_cons]
      omega
    · split at h
      · cases h
      · cases h
        simp only [List.length_cons, List.length_drop]
        omega
  · cases h

/-- Takes items off the front until nothing is left. -/
def takeAll (b : Bytes) : Except Nat (List (Option Bytes)) :=
  match b with
  | [] => .ok []
  | x :: xs =>
    match h : takeItem (x :: xs) with
    | .ok (item, rest) =>
      have : rest.length ≤ xs.length := Nat.le_of_lt_succ (length_lt_of_takeItem h)
      (takeAll rest).map (item :: ·)
    | .error remaining => .error remaining
termination_by b.length

/-- What is wrong with `b` when it ends too early with `remaining` bytes left. -/
def truncated (b : Bytes) (remaining : Nat) : Malformation :=
  .truncated (b.length - remaining) b.length

/-- How many items a collection announces, and the bytes after the count. Room is made for all of
them before the first is read. Every item needs at least the four bytes of its length, so a greater
number of entries than the bytes allow is refused. -/
def announce (perEntry : Nat) (b : Bytes) : Except Malformation (Nat × Bytes) :=
  match b with
  | x :: y :: z :: w :: rest =>
    let size := Bytes.toInt [x, y, z, w]
    if size < 0 then .error (.negativeSize size)
    else
      let room := size.toNat * perEntry
      if rest.length / 4 < room then .error (.oversize size.toNat b.length) else .ok (room, rest)
  | _ => .error (truncated b b.length)

/-- The items of a collection whose entries have `perEntry` items each. Empty bytes are an empty
collection. -/
def readCollection (perEntry : Nat) (b : Bytes) : Except Malformation (List (Option Bytes)) :=
  match b with
  | [] => .ok []
  | _ => do
    let (room, rest) ← announce perEntry b
    match takeItems room rest with
    | .error remaining => .error (truncated b remaining)
    | .ok (items, []) => .ok items
    | .ok (_, more) => .error (.trailing more.length)

/-- The items of a structure. -/
def readStructure (b : Bytes) : Except Malformation (List (Option Bytes)) :=
  match takeAll b with
  | .ok items => .ok items
  | .error remaining => .error (truncated b remaining)

/-! ## Writing -/

/-- The greatest count or length that four bytes can announce. -/
def maxCount : Nat := 2147483647

/-- Four bytes that announce a count or a length. -/
def putCount (count : Nat) : Result Bytes :=
  if maxCount < count then .error (.internal s!"collection of {count} items is too large")
  else .ok (Bytes.ofNat 4 count)

/-- The length of an absent item. -/
def absentMarker : Bytes := [0xFF, 0xFF, 0xFF, 0xFF]

/-- An item with its length in front. -/
def putItem : Option Bytes → Result Bytes
  | none => .ok absentMarker
  | some b => do
    let length ← putCount b.length
    return length ++ b

/-- Items one after the other. -/
def putItems : List (Option Bytes) → Result Bytes
  | [] => .ok []
  | item :: items => do
    let first ← putItem item
    let rest ← putItems items
    return first ++ rest

end WideRow.Framing
