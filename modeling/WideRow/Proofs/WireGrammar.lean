import WideRow.Proofs.Bytes
import WideRow.Proofs.Result
import WideRow.Wire.Framing

/-!
# The grammar of framing

An item is a length and as many bytes, or a negative length. A structure is items up to the last
byte. A collection is nothing at all, or a count and as many items as it announces. The grammar is
said apart from its readers; each accepts what it derives and nothing else.
-/

namespace WideRow.Framing

open Result

/-! ## The grammar -/

/-- An item as it stands on the wire. Any negative length is that of an absent item. -/
inductive WireItem : Option Bytes → Bytes → Prop
  | absent {head : Bytes} (hhead : head.length = 4) (hneg : Bytes.toInt head < 0) :
      WireItem none head
  | present {head body : Bytes} (hhead : head.length = 4)
      (hlength : Bytes.toInt head = body.length) : WireItem (some body) (head ++ body)

/-- Items one after the other. -/
inductive WireItems : List (Option Bytes) → Bytes → Prop
  | nil : WireItems [] []
  | cons {item : Option Bytes} {items : List (Option Bytes)} {b rest : Bytes}
      (first : WireItem item b) (others : WireItems items rest) :
      WireItems (item :: items) (b ++ rest)

/-- The body of a collection whose entries have `perEntry` items each. -/
inductive WireBody (perEntry : Nat) : List (Option Bytes) → Bytes → Prop
  | empty : WireBody perEntry [] []
  | counted {head rest : Bytes} {count : Nat} {items : List (Option Bytes)}
      (hhead : head.length = 4) (hcount : Bytes.toInt head = count)
      (hlength : items.length = count * perEntry) (hitems : WireItems items rest) :
      WireBody perEntry items (head ++ rest)

theorem WireItem.length_ge {item : Option Bytes} {b : Bytes} (h : WireItem item b) :
    4 ≤ b.length := by
  cases h with
  | absent hhead hneg => omega
  | present hhead hlength => simp [hhead]

theorem WireItems.length_ge {items : List (Option Bytes)} {b : Bytes} (h : WireItems items b) :
    4 * items.length ≤ b.length := by
  induction h with
  | nil => simp
  | cons first others ih =>
    have := first.length_ge
    simp only [List.length_cons, List.length_append]
    omega

/-! ## One item -/

theorem four_bytes {b : Bytes} (h : b.length = 4) : ∃ x y z w, b = [x, y, z, w] := by
  match b, h with
  | [x, y, z, w], _ => exact ⟨x, y, z, w, rfl⟩

theorem takeItem_wire {item : Option Bytes} {b : Bytes} (h : WireItem item b) (rest : Bytes) :
    takeItem (b ++ rest) = .ok (item, rest) := by
  cases h with
  | absent hhead hneg =>
    obtain ⟨x, y, z, w, rfl⟩ := four_bytes hhead
    simp [takeItem, hneg]
  | @present head body hhead hlength =>
    obtain ⟨x, y, z, w, rfl⟩ := four_bytes hhead
    simp [takeItem, hlength]

theorem wire_of_takeItem {item : Option Bytes} {b rest : Bytes}
    (h : takeItem b = .ok (item, rest)) : ∃ front, WireItem item front ∧ b = front ++ rest := by
  unfold takeItem at h
  split at h
  · rename_i x y z w tail
    simp only at h
    split at h
    · rename_i hneg
      cases h
      exact ⟨[x, y, z, w], .absent rfl hneg, rfl⟩
    · split at h
      · cases h
      · rename_i hnonneg hlength
        cases h
        refine ⟨[x, y, z, w] ++ tail.take (Bytes.toInt [x, y, z, w]).toNat, .present rfl ?_, ?_⟩
        · rw [List.length_take] at hlength ⊢
          omega
        · simp
  · cases h

/-! ## Items in a row -/

theorem takeItems_wire {items : List (Option Bytes)} {b : Bytes} (h : WireItems items b)
    (rest : Bytes) : takeItems items.length (b ++ rest) = .ok (items, rest) := by
  induction h with
  | nil => rfl
  | cons first others ih =>
    rw [List.length_cons, takeItems, List.append_assoc, takeItem_wire first, ok_bind]
    simp only [ih, ok_bind, pure_eq]

theorem wire_of_takeItems {count : Nat} {items : List (Option Bytes)} {b rest : Bytes}
    (h : takeItems count b = .ok (items, rest)) :
    items.length = count ∧ ∃ front, WireItems items front ∧ b = front ++ rest := by
  induction count generalizing b items with
  | zero =>
    cases h
    exact ⟨rfl, [], .nil, rfl⟩
  | succ count ih =>
    rw [takeItems] at h
    obtain ⟨⟨item, rest₁⟩, hitem, h⟩ := bind_eq_ok.mp h
    obtain ⟨⟨items', rest₂⟩, hitems, h⟩ := bind_eq_ok.mp h
    cases h
    obtain ⟨front, hfront, rfl⟩ := wire_of_takeItem hitem
    obtain ⟨hcount, others, hothers, rfl⟩ := ih hitems
    exact ⟨by simp [hcount], front ++ others, .cons hfront hothers, by simp⟩

/-! ## Items to the end -/

theorem takeAll_of_takeItem {b rest : Bytes} {item : Option Bytes}
    (h : takeItem b = .ok (item, rest)) : takeAll b = (takeAll rest).map (item :: ·) := by
  cases b with
  | nil => cases h
  | cons x xs =>
    rw [takeAll]
    split
    · rename_i heq
      rw [h] at heq
      cases heq
      rfl
    · rename_i heq
      rw [h] at heq
      cases heq

theorem takeAll_of_short {x : UInt8} {xs : Bytes} {remaining : Nat}
    (h : takeItem (x :: xs) = .error remaining) : takeAll (x :: xs) = .error remaining := by
  rw [takeAll]
  split
  · rename_i heq
    rw [h] at heq
    cases heq
  · rename_i heq
    rw [h] at heq
    cases heq
    rfl

theorem takeAll_wire {items : List (Option Bytes)} {b : Bytes} (h : WireItems items b) :
    takeAll b = .ok items := by
  induction h with
  | nil => rw [takeAll]
  | cons first others ih =>
    rw [takeAll_of_takeItem (takeItem_wire first _), ih]
    rfl

theorem wire_of_takeAll {items : List (Option Bytes)} {b : Bytes} (h : takeAll b = .ok items) :
    WireItems items b := by
  induction b using takeAll.induct generalizing items with
  | case1 =>
    rw [takeAll] at h
    cases h
    exact .nil
  | case2 x xs item rest hitem _ ih =>
    obtain ⟨front, hfront, hb⟩ := wire_of_takeItem hitem
    rw [takeAll_of_takeItem hitem] at h
    cases hrest : takeAll rest with
    | error remaining =>
      rw [hrest] at h
      cases h
    | ok items' =>
      rw [hrest] at h
      cases h
      rw [hb]
      exact .cons hfront (ih hrest)
  | case3 x xs remaining hshort =>
    rw [takeAll_of_short hshort] at h
    cases h

/-- A structure is read from its grammar and nothing else. -/
theorem readStructure_eq_ok_iff {b : Bytes} {items : List (Option Bytes)} :
    readStructure b = .ok items ↔ WireItems items b := by
  constructor
  · intro h
    unfold readStructure at h
    split at h
    · rename_i htake
      cases h
      exact wire_of_takeAll htake
    · cases h
  · intro h
    rw [readStructure, takeAll_wire h]

/-! ## Whole bodies -/

theorem readCollection_eq {perEntry : Nat} {b : Bytes} (h : b ≠ []) :
    readCollection perEntry b = announce perEntry b >>= fun (room, rest) =>
      match takeItems room rest with
      | .error remaining => .error (truncated b remaining)
      | .ok (items, []) => .ok items
      | .ok (_, more) => .error (.trailing more.length) := by
  cases b with
  | nil => exact absurd rfl h
  | cons x b => rfl

theorem announce_count {head rest : Bytes} {count perEntry : Nat} (hhead : head.length = 4)
    (hcount : Bytes.toInt head = count) (hroom : 4 * (count * perEntry) ≤ rest.length) :
    announce perEntry (head ++ rest) = .ok (count * perEntry, rest) := by
  obtain ⟨x, y, z, w, rfl⟩ := four_bytes hhead
  simp only [announce, List.cons_append, List.nil_append, hcount, Int.toNat_natCast]
  rw [if_neg (by omega), if_neg (by omega)]

theorem of_announce {b rest : Bytes} {perEntry room : Nat} (h : announce perEntry b = .ok (room, rest)) :
    ∃ head count, head.length = 4 ∧ Bytes.toInt head = (count : Nat) ∧ b = head ++ rest ∧
      room = count * perEntry ∧ 4 * room ≤ rest.length := by
  unfold announce at h
  split at h
  · rename_i x y z w tail
    simp only at h
    split at h
    · cases h
    · split at h
      · cases h
      · cases h
        refine ⟨[x, y, z, w], (Bytes.toInt [x, y, z, w]).toNat, rfl, ?_, rfl, rfl, ?_⟩
        · omega
        · omega
  · cases h

theorem WireBody.announce {perEntry : Nat} {items : List (Option Bytes)} {b : Bytes}
    (h : WireBody perEntry items b) (hne : b ≠ []) :
    ∃ rest, announce perEntry b = .ok (items.length, rest) ∧ WireItems items rest := by
  cases h with
  | empty => exact absurd rfl hne
  | @counted head rest count _ hhead hcount hlength hitems =>
    have hroom := hitems.length_ge
    rw [hlength] at hroom
    exact ⟨rest, by rw [hlength, announce_count hhead hcount hroom], hitems⟩

theorem WireBody.items_eq_nil {perEntry : Nat} {items : List (Option Bytes)} {b : Bytes}
    (h : WireBody perEntry items b) (hb : b = []) : items = [] := by
  cases h with
  | empty => rfl
  | counted hhead => simp_all

/-- A collection is read from its grammar and nothing else. -/
theorem readCollection_eq_ok_iff {perEntry : Nat} {items : List (Option Bytes)} {b : Bytes} :
    readCollection perEntry b = .ok items ↔ WireBody perEntry items b := by
  constructor
  · intro h
    by_cases hb : b = []
    · subst hb
      cases h
      exact .empty
    · rw [readCollection_eq hb] at h
      obtain ⟨⟨room, rest⟩, hannounce, h⟩ := bind_eq_ok.mp h
      obtain ⟨head, count, hhead, hcount, rfl, rfl, -⟩ := of_announce hannounce
      simp only at h
      split at h
      · cases h
      · rename_i htake
        cases h
        obtain ⟨hlength, front, hfront, rfl⟩ := wire_of_takeItems htake
        rw [List.append_nil]
        exact .counted hhead hcount hlength hfront
      · cases h
  · intro h
    by_cases hb : b = []
    · rw [h.items_eq_nil hb, hb]
      rfl
    · obtain ⟨rest, hannounce, hitems⟩ := h.announce hb
      have htake := takeItems_wire hitems []
      rw [List.append_nil] at htake
      rw [readCollection_eq hb, hannounce, ok_bind]
      simp only [htake]

theorem room_le {perEntry room : Nat} {b rest : Bytes}
    (h : announce perEntry b = .ok (room, rest)) : room ≤ b.length / 4 := by
  -- Whatever is announced, there is room for no more items than quarters of the body.
  obtain ⟨head, count, hhead, -, rfl, -, hroom⟩ := of_announce h
  rw [List.length_append]
  omega

end WideRow.Framing
