import WideRow.Session.Slots

/-!
# The session cache

The cache knows for each set of parameters the cluster whose session is shared. Between two calls
nobody waits for a slot: all slots are filled, and none is marked.
-/

namespace WideRow

/-- Slots that nobody waits for. -/
structure Settled (slots : List (Params × Slot)) : Prop where
  filled : ∀ entry ∈ slots, entry.2.isFilled = true
  unmarked : ∀ entry ∈ slots, entry.2.failed = false
  apart : (slots.map (·.2.address)).Nodup

theorem Settled.nil : Settled [] :=
  ⟨nofun, nofun, List.nodup_nil⟩

theorem Settled.sublist {slots more : List (Params × Slot)} (h : Settled more)
    (hsub : slots.Sublist more) : Settled slots :=
  ⟨fun entry hentry => h.filled entry (hsub.subset hentry),
    fun entry hentry => h.unmarked entry (hsub.subset hentry),
    h.apart.sublist (hsub.map _)⟩

namespace SlotTable

variable {t : SlotTable} {key : Params} {slot : Slot} {address : Nat} {id : ClusterId}

/-! ## Addresses -/

theorem address_lt_newAddress {entry : Params × Slot} (h : entry ∈ t.slots) :
    entry.2.address < t.newAddress := by
  unfold newAddress
  generalize t.slots = slots at h
  induction slots with
  | nil => cases h
  | cons e l ih =>
    rw [List.foldr_cons]
    rcases List.mem_cons.mp h with rfl | h
    · omega
    · have := ih h
      omega

theorem find?_address {l : List (Params × Slot)} (hn : (l.map (·.2.address)).Nodup)
    {entry : Params × Slot} (h : entry ∈ l) :
    l.find? (·.2.address == entry.2.address) = some entry := by
  induction l with
  | nil => cases h
  | cons e l ih =>
    rw [List.map_cons, List.nodup_cons] at hn
    rcases List.mem_cons.mp h with rfl | h
    · simp
    · have hne : e.2.address ≠ entry.2.address := by
        intro heq
        exact hn.1 (heq ▸ List.mem_map_of_mem h)
      rw [List.find?_cons_of_neg (by simpa using hne)]
      exact ih hn.2 h

theorem mem_of_slot? (h : t.slot? key = some slot) : (key, slot) ∈ t.slots := by
  unfold slot? at h
  rw [List.lookup_eq_some_iff] at h
  obtain ⟨before, after, hslots, -⟩ := h
  simp [hslots]

theorem at?_of_slot? (ht : Settled t.slots) (h : t.slot? key = some slot) :
    t.at? slot.address = some slot := by
  unfold at?
  rw [find?_address ht.apart (mem_of_slot? h), Option.map_some]

theorem change_of_forall_ne (f : Slot → Slot)
    (h : ∀ entry ∈ t.slots, entry.2.address ≠ address) : t.change address f = t := by
  have hmap : (t.slots.map fun entry =>
      if entry.2.address == address then (entry.1, f entry.2) else entry) = t.slots.map id := by
    apply List.map_congr_left
    intro entry hentry
    simp [h entry hentry]
  unfold change
  rw [hmap, List.map_id]

/-! ## A slot that is put there -/

/-- Another slot in front of those that there are. -/
def put (key : Params) (slot : Slot) (t : SlotTable) : SlotTable :=
  { t with slots := (key, slot) :: t.slots }

theorem enter_of_none (h : t.slot? key = none) :
    t.enter key = (t.newAddress, t.put key (.empty t.newAddress)) := by
  unfold enter
  rw [h]
  rfl

theorem at?_put (key : Params) (slot : Slot) (t : SlotTable) :
    (t.put key slot).at? slot.address = some slot := by
  simp [at?, put]

theorem slot?_put (key : Params) (slot : Slot) (t : SlotTable) :
    (t.put key slot).slot? key = some slot := by
  simp [slot?, put]

theorem change_put (f : Slot → Slot) (hnew : slot.address = t.newAddress) :
    (t.put key slot).change t.newAddress f = t.put key (f slot) := by
  have hothers := change_of_forall_ne (t := t) f fun entry hentry =>
    Nat.ne_of_lt (address_lt_newAddress hentry)
  have hslots := congrArg SlotTable.slots hothers
  simpa [change, put, hnew] using hslots

theorem removeIf_put (h : t.slot? key = none) (test : Slot → Bool) (htest : test slot = true) :
    (t.put key slot).removeIf key test = (true, t) := by
  have hothers : t.slots.filter (·.1 != key) = t.slots := by
    unfold slot? at h
    rw [List.lookup_eq_none_iff] at h
    rw [List.filter_eq_self]
    intro entry hentry
    simpa [bne_comm] using h entry hentry
  unfold removeIf
  rw [slot?_put]
  simp [htest, put, hothers]

theorem giveUp_put (h : t.slot? key = none) :
    (t.put key (.empty t.newAddress)).giveUp key t.newAddress = t := by
  unfold giveUp
  rw [change_put _ rfl, removeIf_put h]
  simp [Slot.fail, Slot.empty]

/-- A new slot that is filled, and counted. -/
def store (key : Params) (id : ClusterId) (t : SlotTable) : SlotTable :=
  { t.put key ⟨t.newAddress, some id, false⟩ with loads := t.loads + 1 }

theorem load_put (key : Params) (id : ClusterId) (t : SlotTable) :
    (t.put key (.empty t.newAddress)).load t.newAddress id = t.store key id := by
  unfold load
  rw [change_put _ rfl]
  rfl

theorem settled_store (ht : Settled t.slots) (key : Params) (id : ClusterId) :
    Settled (t.store key id).slots := by
  refine ⟨?_, ?_, List.nodup_cons.mpr ⟨?_, ht.apart⟩⟩
  · intro entry hentry
    rcases List.mem_cons.mp hentry with rfl | hentry
    · rfl
    · exact ht.filled entry hentry
  · intro entry hentry
    rcases List.mem_cons.mp hentry with rfl | hentry
    · rfl
    · exact ht.unmarked entry hentry
  · intro hmem
    obtain ⟨entry, hentry, haddress⟩ := List.mem_map.mp hmem
    exact Nat.ne_of_lt (address_lt_newAddress hentry) haddress

/-! ## Slots that are taken away -/

theorem sublist_removeIf (key : Params) (test : Slot → Bool) (t : SlotTable) :
    (t.removeIf key test).2.slots.Sublist t.slots := by
  unfold removeIf
  split
  · split
    · exact List.filter_sublist
    · exact List.Sublist.refl _
  · exact List.Sublist.refl _

theorem slots_countRemoval (a : Bool × SlotTable) : (countRemoval a).2.slots = a.2.slots := by
  unfold countRemoval
  split <;> rfl

theorem sublist_evict (key : Params) (id : ClusterId) (t : SlotTable) :
    (t.evict key id).2.slots.Sublist t.slots := by
  unfold evict
  rw [slots_countRemoval]
  exact sublist_removeIf key _ t

theorem sublist_invalidate (key : Params) (t : SlotTable) :
    (t.invalidate key).2.slots.Sublist t.slots := by
  unfold invalidate
  rw [slots_countRemoval]
  exact sublist_removeIf key _ t

end SlotTable

structure SessionCache extends SlotTable where
  settled : Settled slots
  deriving DecidableEq

namespace SessionCache

def empty : SessionCache :=
  ⟨.empty, .nil⟩

/-- Removes the entry of a key if it holds this very cluster. -/
def evict (c : SessionCache) (key : Params) (id : ClusterId) : SessionCache :=
  ⟨(c.toSlotTable.evict key id).2, c.settled.sublist (SlotTable.sublist_evict key id _)⟩

/-- Removes the entry of a key, and tells whether there was one. -/
def invalidate (c : SessionCache) (key : Params) : Bool × SessionCache :=
  let removed := c.toSlotTable.invalidate key
  (removed.1, ⟨removed.2, c.settled.sublist (SlotTable.sublist_invalidate key _)⟩)

/-- Drops all entries, which nobody counts. -/
def clear (c : SessionCache) : SessionCache :=
  { c with slots := [], settled := .nil }

end SessionCache

end WideRow
