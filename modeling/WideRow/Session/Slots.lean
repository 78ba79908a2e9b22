import WideRow.Session.Backend

/-!
# Slots

Who looks up parameters that are not known puts an empty slot in their place before anything is
built, so that others find the slot and wait for it. A session that was built fills the slot. Where
none could be built, the slot is marked for those who wait, and taken away: this very slot, and not
another one that stands under the same parameters by then. Only filled slots count.
-/

namespace WideRow

/-- A place for the cluster whose session is shared. -/
structure Slot where
  /-- No two slots have the same address. -/
  address : Nat
  /-- Set once. -/
  handle : Option ClusterId
  /-- Whether nothing could be built for the slot. -/
  failed : Bool
  deriving DecidableEq

namespace Slot

def empty (address : Nat) : Slot :=
  ⟨address, none, false⟩

/-- What is in a slot stays. -/
def fill (id : ClusterId) (s : Slot) : Slot :=
  { s with handle := s.handle.or (some id) }

def fail (s : Slot) : Slot :=
  { s with failed := true }

def isFilled (s : Slot) : Bool :=
  s.handle.isSome

def holds (id : ClusterId) (s : Slot) : Bool :=
  s.handle == some id

end Slot

/-- Slots by parameters. The look-ups answered from a slot, the slots filled and those taken away
are counted; counting to `2 ^ 64` takes more calls than anyone makes. -/
structure SlotTable where
  slots : List (Params × Slot)
  loads : Nat
  hits : Nat
  evictions : Nat
  deriving DecidableEq

namespace SlotTable

def empty : SlotTable :=
  ⟨[], 0, 0, 0⟩

def slot? (t : SlotTable) (key : Params) : Option Slot :=
  t.slots.lookup key

/-! ## Filled slots -/

def find? (t : SlotTable) (key : Params) : Option ClusterId :=
  (t.slot? key).bind Slot.handle

def contains (t : SlotTable) (key : Params) : Bool :=
  (t.find? key).isSome

def size (t : SlotTable) : Nat :=
  t.slots.countP (·.2.isFilled)

def entries (t : SlotTable) : List (Params × ClusterId) :=
  t.slots.filterMap fun entry => entry.2.handle.map (entry.1, ·)

/-! ## One slot -/

/-- An address that no slot has. -/
def newAddress (t : SlotTable) : Nat :=
  t.slots.foldr (fun entry n => max (entry.2.address + 1) n) 0

/-- The address of the slot of parameters. An empty slot is put where there is none. -/
def enter (key : Params) (t : SlotTable) : Nat × SlotTable :=
  match t.slot? key with
  | some slot => (slot.address, t)
  | none => (t.newAddress, { t with slots := (key, .empty t.newAddress) :: t.slots })

def at? (t : SlotTable) (address : Nat) : Option Slot :=
  (t.slots.find? (·.2.address == address)).map Prod.snd

def handleAt? (t : SlotTable) (address : Nat) : Option ClusterId :=
  (t.at? address).bind Slot.handle

def hasFailed (t : SlotTable) (address : Nat) : Bool :=
  (t.at? address).any Slot.failed

def change (address : Nat) (f : Slot → Slot) (t : SlotTable) : SlotTable :=
  { t with
    slots := t.slots.map fun entry =>
      if entry.2.address == address then (entry.1, f entry.2) else entry }

/-! ## Taking slots away -/

/-- Takes the slot of parameters away if it passes a test, and tells whether it did. -/
def removeIf (key : Params) (test : Slot → Bool) (t : SlotTable) : Bool × SlotTable :=
  match t.slot? key with
  | some slot =>
    if test slot then (true, { t with slots := t.slots.filter (·.1 != key) }) else (false, t)
  | none => (false, t)

/-- Marks a slot that nothing could be built for, and takes it away if it is still there. -/
def giveUp (key : Params) (address : Nat) (t : SlotTable) : SlotTable :=
  ((t.change address Slot.fail).removeIf key (·.address == address)).2

def countRemoval : Bool × SlotTable → Bool × SlotTable
  | (true, t) => (true, { t with evictions := t.evictions + 1 })
  | (false, t) => (false, t)

/-- Takes the slot of parameters away if it holds this very cluster. -/
def evict (key : Params) (id : ClusterId) (t : SlotTable) : Bool × SlotTable :=
  countRemoval (t.removeIf key (Slot.holds id))

def invalidate (key : Params) (t : SlotTable) : Bool × SlotTable :=
  countRemoval (t.removeIf key fun _ => true)

/-! ## Counting -/

/-- Counts a look-up that was answered from a slot. -/
def hit (t : SlotTable) : SlotTable :=
  { t with hits := t.hits + 1 }

/-- Fills a slot, and counts it. -/
def load (address : Nat) (id : ClusterId) (t : SlotTable) : SlotTable :=
  { t.change address (Slot.fill id) with loads := t.loads + 1 }

def describe (t : SlotTable) : String :=
  s!"SessionCache \x7b cached: {t.size} \x7d"

end SlotTable

end WideRow
