import WideRow.Proofs.WireGrammar

/-! # Items between their lengths -/

namespace WideRow.Framing

open Result

/-! ## Frames -/

/-- An item as it stands among others. -/
def frame : Option Bytes → Bytes
  | none => absentMarker
  | some b => Bytes.ofNat 4 b.length ++ b

/-- Items one after the other, each in its frame. -/
def frames (items : List (Option Bytes)) : Bytes :=
  items.flatMap frame

/-- Four bytes can announce the length of the item. -/
def Short (item : Option Bytes) : Prop :=
  ∀ b, item = some b → b.length ≤ maxCount

/-- The error that a count or a length is more than four bytes can announce. -/
def tooLarge (n : Nat) : ClientError :=
  .internal s!"collection of {n} items is too large"

theorem short_none : Short none := by
  intro b h
  cases h

theorem short_some {b : Bytes} : Short (some b) ↔ b.length ≤ maxCount := by
  constructor
  · intro h
    exact h b rfl
  · intro h c hc
    cases hc
    exact h

theorem frames_cons (item : Option Bytes) (items : List (Option Bytes)) :
    frames (item :: items) = frame item ++ frames items := rfl

theorem length_frame (item : Option Bytes) : (frame item).length = 4 + (item.elim 0 List.length) := by
  cases item with
  | none => rfl
  | some b => simp [frame]

theorem length_frames_cons (item : Option Bytes) (items : List (Option Bytes)) :
    (frames (item :: items)).length = (frame item).length + (frames items).length := by
  rw [frames_cons, List.length_append]

theorem length_frames_ge (items : List (Option Bytes)) : 4 * items.length ≤ (frames items).length := by
  induction items with
  | nil => simp
  | cons item items ih =>
    rw [length_frames_cons, length_frame, List.length_cons]
    omega

/-! ## Writing -/

theorem putCount_ok {n : Nat} (h : n ≤ maxCount) : putCount n = .ok (Bytes.ofNat 4 n) :=
  if_neg (by omega)

theorem putCount_too_large {n : Nat} (h : maxCount < n) : putCount n = .error (tooLarge n) := if_pos h

theorem putItem_ok {item : Option Bytes} (h : Short item) : putItem item = .ok (frame item) := by
  cases item with
  | none => rfl
  | some b => rw [putItem, putCount_ok (short_some.mp h), ok_bind, pure_eq, frame]

theorem putItem_too_large {b : Bytes} (h : maxCount < b.length) :
    putItem (some b) = .error (tooLarge b.length) := by
  rw [putItem, putCount_too_large h, error_bind]

theorem putItems_ok {items : List (Option Bytes)} (h : ∀ item ∈ items, Short item) :
    putItems items = .ok (frames items) := by
  induction items with
  | nil => rfl
  | cons item items ih =>
    rw [List.forall_mem_cons] at h
    rw [putItems, putItem_ok h.1, ok_bind, ih h.2, ok_bind, pure_eq, frames_cons]

theorem putItems_too_large {items : List (Option Bytes)} (h : ¬ ∀ item ∈ items, Short item) :
    ∃ b, some b ∈ items ∧ maxCount < b.length ∧ putItems items = .error (tooLarge b.length) := by
  induction items with
  | nil => exact absurd (List.forall_mem_nil _) h
  | cons item items ih =>
    by_cases hs : Short item
    · obtain ⟨b, hb, hlt, he⟩ := ih fun hall => h (List.forall_mem_cons.mpr ⟨hs, hall⟩)
      refine ⟨b, List.mem_cons_of_mem _ hb, hlt, ?_⟩
      rw [putItems, putItem_ok hs, ok_bind, he, error_bind]
    · cases item with
      | none => exact absurd short_none hs
      | some b =>
        rw [short_some, Nat.not_le] at hs
        refine ⟨b, List.mem_cons_self, hs, ?_⟩
        rw [putItems, putItem_too_large hs, error_bind]

/-! ## Reading what was written -/

theorem toInt_count {n : Nat} (h : n ≤ maxCount) : Bytes.toInt (Bytes.ofNat 4 n) = n := by
  unfold maxCount at h
  have hn : Bytes.toNat (Bytes.ofNat 4 n) = n := Bytes.toNat_ofNat_of_lt (by omega)
  have hl := Bytes.length_ofNat 4 n
  rw [Bytes.toInt_of_not_signBit, hn]
  rw [← Bool.not_eq_true, Bytes.signBit_iff, hn, hl]
  omega

theorem wire_frame {item : Option Bytes} (h : Short item) : WireItem item (frame item) := by
  cases item with
  | none => exact .absent rfl (by decide)
  | some b => exact .present (Bytes.length_ofNat 4 _) (toInt_count (short_some.mp h))

theorem wire_frames {items : List (Option Bytes)} (h : ∀ item ∈ items, Short item) :
    WireItems items (frames items) := by
  induction items with
  | nil => exact .nil
  | cons item items ih =>
    rw [List.forall_mem_cons] at h
    exact .cons (wire_frame h.1) (ih h.2)

theorem readCollection_frames {count perEntry : Nat} {items : List (Option Bytes)}
    (hcount : count ≤ maxCount) (hitems : items.length = count * perEntry)
    (h : ∀ item ∈ items, Short item) :
    readCollection perEntry (Bytes.ofNat 4 count ++ frames items) = .ok items :=
  readCollection_eq_ok_iff.mpr
    (.counted (Bytes.length_ofNat 4 count) (toInt_count hcount) hitems (wire_frames h))

theorem readStructure_frames {items : List (Option Bytes)} (h : ∀ item ∈ items, Short item) :
    readStructure (frames items) = .ok items :=
  readStructure_eq_ok_iff.mpr (wire_frames h)

/-! ## What the reading accepts -/

theorem WireItem.short {item : Option Bytes} {b : Bytes} (h : WireItem item b) : Short item := by
  cases h with
  | absent => exact short_none
  | @present head body hhead hlength =>
    have hlt := (Bytes.toInt_bounds head).2
    rw [hlength, hhead] at hlt
    rw [short_some]
    unfold maxCount
    omega

theorem WireItem.length_eq {item : Option Bytes} {b : Bytes} (h : WireItem item b) :
    (frame item).length = b.length := by
  cases h with
  | absent hhead => simp [length_frame, hhead]
  | present hhead => simp [length_frame, hhead]

theorem WireItems.short {items : List (Option Bytes)} {b : Bytes} (h : WireItems items b) :
    ∀ item ∈ items, Short item := by
  induction h with
  | nil => exact List.forall_mem_nil _
  | cons first _ ih => exact List.forall_mem_cons.mpr ⟨first.short, ih⟩

theorem WireItems.length_eq {items : List (Option Bytes)} {b : Bytes} (h : WireItems items b) :
    (frames items).length = b.length := by
  induction h with
  | nil => rfl
  | cons first _ ih => rw [length_frames_cons, List.length_append, first.length_eq, ih]

theorem of_readCollection {perEntry : Nat} {b : Bytes} {items : List (Option Bytes)}
    (h : readCollection perEntry b = .ok items) :
    (∃ count, items.length = count * perEntry) ∧ (frames items).length = b.length - 4 := by
  cases readCollection_eq_ok_iff.mp h with
  | empty => exact ⟨⟨0, by simp⟩, rfl⟩
  | @counted head rest count _ hhead hcount hlength hitems =>
    refine ⟨⟨count, hlength⟩, ?_⟩
    rw [hitems.length_eq, List.length_append]
    omega

theorem of_readStructure {b : Bytes} {items : List (Option Bytes)} (h : readStructure b = .ok items) :
    (∀ item ∈ items, Short item) ∧ (frames items).length = b.length := by
  have hitems := readStructure_eq_ok_iff.mp h
  exact ⟨hitems.short, hitems.length_eq⟩

end WideRow.Framing
