import WideRow.Session.Pool

/-!
# Entries of the session cache

Where all slots are filled, a cache is known by its entries: a look-up finds the entry of its key,
one that builds adds an entry, and a removal takes the entry of a key away.
-/

namespace WideRow

namespace SlotTable

variable {t : SlotTable} {key : Params} {id : ClusterId}

theorem find?_eq_lookup (ht : Settled t.slots) (key : Params) :
    t.find? key = t.entries.lookup key := by
  have hfilled := ht.filled
  unfold find? slot? entries
  generalize t.slots = slots at hfilled
  induction slots with
  | nil => rfl
  | cons entry slots ih =>
    obtain ⟨k, slot⟩ := entry
    have hrest := ih fun entry hentry => hfilled entry (List.mem_cons_of_mem _ hentry)
    obtain ⟨id, hid⟩ := Option.isSome_iff_exists.mp (hfilled (k, slot) List.mem_cons_self)
    rw [List.filterMap_cons, hid, Option.map_some, List.lookup_cons, List.lookup_cons]
    cases key == k with
    | true => exact hid
    | false => exact hrest

theorem size_eq_length_slots (ht : Settled t.slots) : t.size = t.slots.length :=
  List.countP_eq_length.mpr ht.filled

theorem size_eq_length_entries (t : SlotTable) : t.size = t.entries.length := by
  unfold size entries
  induction t.slots with
  | nil => rfl
  | cons entry slots ih =>
    rw [List.countP_cons, List.filterMap_cons, ih, Slot.isFilled]
    cases entry.2.handle <;> rfl

theorem keys_entries (ht : Settled t.slots) : t.entries.map Prod.fst = t.slots.map Prod.fst := by
  have hfilled := ht.filled
  unfold entries
  generalize t.slots = slots at hfilled
  induction slots with
  | nil => rfl
  | cons entry slots ih =>
    have hrest := ih fun entry hentry => hfilled entry (List.mem_cons_of_mem _ hentry)
    obtain ⟨id, hid⟩ := Option.isSome_iff_exists.mp (hfilled entry List.mem_cons_self)
    rw [List.filterMap_cons, hid, Option.map_some, List.map_cons, List.map_cons, hrest]

theorem mem_entries {slot : Slot} (h : (key, slot) ∈ t.slots) (hid : slot.handle = some id) :
    (key, id) ∈ t.entries := by
  unfold entries
  rw [List.mem_filterMap]
  exact ⟨_, h, by rw [hid, Option.map_some]⟩

theorem filterMap_filter_key (slots : List (Params × Slot)) (key : Params) :
    ((slots.filter (·.1 != key)).filterMap fun entry => entry.2.handle.map (entry.1, ·)) =
      (slots.filterMap fun entry => entry.2.handle.map (entry.1, ·)).filter (·.1 != key) := by
  rw [List.filterMap_filter, List.filter_filterMap]
  congr 1
  funext entry
  cases entry.2.handle with
  | none => simp
  | some id => rfl

/-! ## Giving up -/

theorem slot?_change (address : Nat) (f : Slot → Slot) (t : SlotTable) (key : Params) :
    (t.change address f).slot? key =
      (t.slot? key).map fun slot => if slot.address == address then f slot else slot := by
  unfold slot? change
  induction t.slots with
  | nil => rfl
  | cons entry slots ih =>
    obtain ⟨k, slot⟩ := entry
    rw [List.map_cons, List.lookup_cons]
    by_cases haddress : slot.address = address
    · simp only [haddress, beq_self_eq_true, if_true, List.lookup_cons]
      split
      · simp [haddress]
      · exact ih
    · have hne : (slot.address == address) = false := beq_eq_false_iff_ne.mpr haddress
      simp only [hne, Bool.false_eq_true, if_false, List.lookup_cons]
      split
      · simp [haddress]
      · exact ih

/-- Who gives up a slot takes away no other one that stands in its place by then. -/
theorem slot?_giveUp_of_other {slot : Slot} (h : t.slot? key = some slot) {address : Nat}
    (hother : slot.address ≠ address) : (t.giveUp key address).slot? key = some slot := by
  have hstays : (t.change address Slot.fail).slot? key = some slot := by
    rw [slot?_change, h, Option.map_some, if_neg (by simpa using hother)]
  unfold giveUp removeIf
  rw [hstays]
  simpa [hother] using hstays

end SlotTable

namespace SessionCache

variable {c : SessionCache} {key : Params} {id : ClusterId}

theorem eq_of_table {c d : SessionCache} (h : c.toSlotTable = d.toSlotTable) : c = d := by
  obtain ⟨t, _⟩ := c
  obtain ⟨u, _⟩ := d
  cases h
  rfl

/-! ## What is done to a cache -/

def hit (c : SessionCache) : SessionCache :=
  ⟨c.toSlotTable.hit, c.settled⟩

/-- Adds the entry of a key that has none. -/
def store (c : SessionCache) (key : Params) (id : ClusterId) : SessionCache :=
  ⟨c.toSlotTable.store key id, SlotTable.settled_store c.settled key id⟩

def remove (c : SessionCache) (key : Params) : SessionCache :=
  { c with
    slots := c.slots.filter (·.1 != key)
    evictions := c.evictions + 1
    settled := c.settled.sublist List.filter_sublist }

theorem find?_eq_lookup (c : SessionCache) (key : Params) :
    c.find? key = c.entries.lookup key :=
  SlotTable.find?_eq_lookup c.settled key

theorem entries_store (c : SessionCache) (key : Params) (id : ClusterId) :
    (c.store key id).entries = (key, id) :: c.entries :=
  rfl

theorem entries_remove (c : SessionCache) (key : Params) :
    (c.remove key).entries = c.entries.filter (·.1 != key) :=
  SlotTable.filterMap_filter_key c.slots key

theorem entries_clear (c : SessionCache) : c.clear.entries = [] :=
  rfl

theorem find?_store_self (c : SessionCache) (key : Params) (id : ClusterId) :
    (c.store key id).find? key = some id := by
  rw [find?_eq_lookup, entries_store, List.lookup_cons_self]

theorem find?_store_other {k : Params} (h : k ≠ key) (id : ClusterId) :
    (c.store key id).find? k = c.find? k := by
  rw [find?_eq_lookup, find?_eq_lookup, entries_store, List.lookup_cons,
    beq_eq_false_iff_ne.mpr h]

theorem mem_of_find? (h : c.find? key = some id) : (key, id) ∈ c.entries := by
  rw [find?_eq_lookup, List.lookup_eq_some_iff] at h
  obtain ⟨before, after, hentries, -⟩ := h
  simp [hentries]

theorem ne_of_mem_remove {entry : Params × ClusterId} (h : entry ∈ (c.remove key).entries) :
    entry.1 ≠ key := by
  rw [entries_remove] at h
  simpa using (List.mem_filter.mp h).2

theorem mem_of_mem_remove {entry : Params × ClusterId} (h : entry ∈ (c.remove key).entries) :
    entry ∈ c.entries := by
  rw [entries_remove] at h
  exact (List.mem_filter.mp h).1

theorem find?_remove (c : SessionCache) (key : Params) : (c.remove key).find? key = none := by
  rw [find?_eq_lookup, List.lookup_eq_none_iff]
  rintro entry hentry
  simpa using Ne.symm (ne_of_mem_remove hentry)

theorem removeIf_eq (c : SessionCache) (key : Params) (test : Slot → Bool) :
    SlotTable.countRemoval (c.toSlotTable.removeIf key test) =
      if (c.slot? key).any test then (true, (c.remove key).toSlotTable)
      else (false, c.toSlotTable) := by
  unfold SlotTable.removeIf
  cases hslot : c.slot? key with
  | none => rfl
  | some slot =>
    cases htest : test slot with
    | true => simp [htest, SlotTable.countRemoval, remove]
    | false => simp [htest, SlotTable.countRemoval]

theorem evict_eq (c : SessionCache) (key : Params) (id : ClusterId) :
    c.evict key id = if c.find? key = some id then c.remove key else c := by
  have hany : (c.slot? key).any (Slot.holds id) = true ↔ c.find? key = some id := by
    simp [SlotTable.find?, Slot.holds, Option.any_eq_true, Option.bind_eq_some_iff]
  apply eq_of_table
  change (SlotTable.countRemoval (c.toSlotTable.removeIf key (Slot.holds id))).2 = _
  rw [removeIf_eq]
  by_cases hfind : c.find? key = some id
  · rw [if_pos (hany.mpr hfind), if_pos hfind]
  · rw [if_neg (mt hany.mp hfind), if_neg hfind]

theorem evict_of_find? (h : c.find? key = some id) : c.evict key id = c.remove key := by
  rw [evict_eq, if_pos h]

theorem evict_of_find?_ne (h : c.find? key ≠ some id) : c.evict key id = c := by
  rw [evict_eq, if_neg h]

theorem invalidate_eq (c : SessionCache) (key : Params) :
    c.invalidate key = if c.contains key then (true, c.remove key) else (false, c) := by
  have hany : (c.slot? key).any (fun _ => true) = c.contains key := by
    cases hslot : c.slot? key with
    | none => simp [SlotTable.contains, SlotTable.find?, hslot]
    | some slot =>
      have hfilled := c.settled.filled _ (SlotTable.mem_of_slot? hslot)
      simpa [SlotTable.contains, SlotTable.find?, hslot, Slot.isFilled] using hfilled.symm
  have hremoved := removeIf_eq c key fun _ => true
  rw [hany] at hremoved
  have hinvalidate : c.toSlotTable.invalidate key =
      if c.contains key then (true, (c.remove key).toSlotTable) else (false, c.toSlotTable) :=
    hremoved
  apply Prod.ext
  · change (c.toSlotTable.invalidate key).1 = _
    rw [hinvalidate]
    split <;> rfl
  · apply eq_of_table
    change (c.toSlotTable.invalidate key).2 = _
    rw [hinvalidate]
    split <;> rfl

end SessionCache

namespace Pool

variable {σ : Type} {b : Backend σ} {key : Params} {p : Pool σ} {id : ClusterId}

/-! ## Looking up -/

/-- What comes of a look-up that finds nothing. -/
def loadFresh (b : Backend σ) (key : Params) (p : Pool σ) : Result ClusterId × Pool σ :=
  match p.buildHandle b key with
  | (.error error, p) => (.error error, p)
  | (.ok id, p) => (.ok id, { p with cache := p.cache.store key id })

theorem cache_buildHandle (b : Backend σ) (key : Params) (p : Pool σ) :
    (p.buildHandle b key).2.cache = p.cache := by
  unfold buildHandle
  split
  · rfl
  · split
    · rfl
    · simp only
      split <;> rfl

theorem load_of_round {answer : Result ClusterId} {c : SessionCache} {q : Pool σ}
    (h : p.loadRound b key p.cache.toSlotTable = some (answer, c.toSlotTable, q)) :
    p.load b key = (answer, { q with cache := c }) := by
  unfold load
  simp [h]

theorem load_hit (h : p.cache.find? key = some id) :
    p.load b key = (.ok id, { p with cache := p.cache.hit }) :=
  load_of_round (c := p.cache.hit) (loadRound_of_find? p.cache.settled h b p)

theorem load_miss (h : p.cache.find? key = none) : p.load b key = p.loadFresh b key := by
  have hround := loadRound_of_none (slot?_of_find? p.cache.settled h) b p
  have hcache := cache_buildHandle b key p
  unfold loadFresh
  cases hbuild : p.buildHandle b key with
  | mk answer q =>
    rw [hbuild] at hround hcache
    simp only at hcache
    cases answer with
    | error error =>
      rw [load_of_round (c := p.cache) hround, ← hcache]
    | ok id =>
      rw [load_of_round (c := p.cache.store key id) hround]
      simp only [hcache]

theorem load_eq (b : Backend σ) (key : Params) (p : Pool σ) :
    p.load b key =
      match p.cache.find? key with
      | some id => (.ok id, { p with cache := p.cache.hit })
      | none => p.loadFresh b key := by
  split
  · rename_i hfind
    exact load_hit hfind
  · rename_i hfind
    exact load_miss hfind

/-! ## Round after round -/

/-- What a look-up comes to that goes round after round until one of them has an answer. A round
without an answer changes nothing: whoever gave the slot up takes it away. -/
inductive Loads (b : Backend σ) (key : Params) (t : SlotTable) (p : Pool σ) :
    Result ClusterId × SlotTable × Pool σ → Prop
  | done {outcome : Result ClusterId × SlotTable × Pool σ}
      (hround : p.loadRound b key t = some outcome) : Loads b key t p outcome
  | again {outcome : Result ClusterId × SlotTable × Pool σ} (hround : p.loadRound b key t = none)
      (rest : Loads b key t p outcome) : Loads b key t p outcome

theorem cache_loadRound {t : SlotTable} {outcome : Result ClusterId × SlotTable × Pool σ}
    (h : p.loadRound b key t = some outcome) : outcome.2.2.cache = p.cache := by
  have hbuild := cache_buildHandle b key p
  unfold loadRound at h
  simp only at h
  split at h
  · injection h with h
    rw [← h]
  · split at h
    · cases h
    · split at h
      · injection h with h
        rw [← h]
      · cases hbuilt : p.buildHandle b key with
        | mk answer q =>
          rw [hbuilt] at h hbuild
          cases answer <;> injection h with h <;> rw [← h, ← hbuild]

theorem loads_iff {t : SlotTable} {outcome : Result ClusterId × SlotTable × Pool σ} :
    Loads b key t p outcome ↔ p.loadRound b key t = some outcome := by
  constructor
  · intro h
    induction h with
    | done hround => exact hround
    | again _ _ ih => exact ih
  · exact .done

/-- Who finds a slot that was given up and is still there goes round forever. -/
theorem not_loads_of_failed {t : SlotTable} {slot : Slot} (hslot : t.slot? key = some slot)
    (hat : t.at? slot.address = some slot) (hempty : slot.handle = none)
    (hfailed : slot.failed = true) (outcome : Result ClusterId × SlotTable × Pool σ) :
    ¬ Loads b key t p outcome := by
  have henter : t.enter key = (slot.address, t) := by
    unfold SlotTable.enter
    rw [hslot]
  rw [loads_iff]
  unfold loadRound
  simp [henter, SlotTable.handleAt?, SlotTable.hasFailed, hat, hempty, hfailed]

/-- Between calls the rounds come to an end, to no other one than that of `load`. -/
theorem loads_load {outcome : Result ClusterId × SlotTable × Pool σ} :
    Loads b key p.cache.toSlotTable p outcome ↔
      outcome = ((p.load b key).1, (p.load b key).2.cache.toSlotTable,
        { (p.load b key).2 with cache := p.cache }) := by
  -- Nobody waits for a slot between calls, so the first round has an answer.
  obtain ⟨⟨answer, t, q⟩, hround, hsettled⟩ := settled_loadRound p.cache.settled b key p
  have hload := load_of_round (c := ⟨t, hsettled⟩) hround
  have hcache : q.cache = p.cache := cache_loadRound hround
  rw [loads_iff, hround, Option.some_inj, hload]
  simp only [← hcache]
  exact eq_comm

end Pool

end WideRow
