import Mathlib.Data.List.Forall2
import WideRow.Proofs.Framing
import WideRow.Wire.Decode
import WideRow.Wire.Encode

/-! # Items of collections, written and read -/

namespace WideRow

open Framing Result

/-! ## Lists side by side -/

theorem exists_right {α β : Type} {R : α → β → Prop} {as : List α} {bs : List β}
    (h : List.Forall₂ R as bs) {a : α} (ha : a ∈ as) : ∃ b ∈ bs, R a b := by
  induction h with
  | nil => cases ha
  | cons hab _ ih =>
    rcases List.mem_cons.mp ha with rfl | ha
    · exact ⟨_, List.mem_cons_self, hab⟩
    · obtain ⟨b, hb, hr⟩ := ih ha
      exact ⟨b, List.mem_cons_of_mem _ hb, hr⟩

theorem exists_left {α β : Type} {R : α → β → Prop} {as : List α} {bs : List β}
    (h : List.Forall₂ R as bs) {b : β} (hb : b ∈ bs) : ∃ a ∈ as, R a b :=
  exists_right (R := fun b a => R a b) (List.Forall₂.flip h) hb

theorem imp_of_mem {α β : Type} {R S : α → β → Prop} {as : List α} {bs : List β}
    (h : List.Forall₂ R as bs) (hrs : ∀ a, ∀ b ∈ bs, R a b → S a b) : List.Forall₂ S as bs := by
  induction h with
  | nil => exact .nil
  | cons hab _ ih =>
    refine .cons (hrs _ _ List.mem_cons_self hab) (ih ?_)
    intro a b hb
    exact hrs a b (List.mem_cons_of_mem _ hb)

/-! ## One item -/

/-- An item written with its length in front. -/
def writeItem (encodeItem : Value → Result (Option Bytes)) (v : Value) : Result Bytes :=
  encodeItem v >>= putItem

section

variable {f fk fv : Value → Result (Option Bytes)}

/-- What `f` writes for the item is `item`, and four bytes can announce its length. -/
def Writes (f : Value → Result (Option Bytes)) (v : Value) (item : Option Bytes) : Prop :=
  f v = .ok item ∧ Short item

theorem writeItem_ok {v : Value} {item : Option Bytes} (h : Writes f v item) :
    writeItem f v = .ok (frame item) := by
  unfold writeItem
  rw [h.1, ok_bind, putItem_ok h.2]

theorem of_writeItem {v : Value} {b : Bytes} (h : writeItem f v = .ok b) :
    ∃ item, Writes f v item ∧ b = frame item := by
  obtain ⟨item, hitem, hput⟩ := bind_eq_ok.mp h
  by_cases hs : Short item
  · rw [putItem_ok hs] at hput
    cases hput
    exact ⟨item, ⟨hitem, hs⟩, rfl⟩
  · cases item with
    | none => exact absurd short_none hs
    | some c =>
      rw [short_some, Nat.not_le] at hs
      rw [putItem_too_large hs] at hput
      cases hput

theorem writeItem_error {v : Value} {e : ClientError} (h : writeItem f v = .error e) :
    f v = .error e ∨ ∃ b, f v = .ok (some b) ∧ maxCount < b.length ∧ e = tooLarge b.length := by
  unfold writeItem at h
  cases hf : f v with
  | error e' =>
    rw [hf] at h
    cases h
    exact .inl rfl
  | ok item =>
    rw [hf, ok_bind] at h
    by_cases hs : Short item
    · rw [putItem_ok hs] at h
      cases h
    · cases item with
      | none => exact absurd short_none hs
      | some b =>
        rw [short_some, Nat.not_le] at hs
        rw [putItem_too_large hs] at h
        cases h
        exact .inr ⟨b, rfl, hs, rfl⟩

/-! ## Sequences -/

theorem encodeItems_cons (v : Value) (vs : List Value) :
    encodeItems f (v :: vs) =
      (writeItem f v >>= fun first => encodeItems f vs >>= fun rest => .ok (first ++ rest)) := by
  unfold writeItem
  rw [encodeItems]
  cases f v <;> rfl

theorem encodeEntries_cons (k v : Value) (entries : List (Value × Value)) :
    encodeEntries fk fv ((k, v) :: entries) =
      (writeItem fk k >>= fun key => writeItem fv v >>= fun value =>
        encodeEntries fk fv entries >>= fun rest => .ok (key ++ value ++ rest)) := by
  unfold writeItem
  rw [encodeEntries]
  cases fk k with
  | error e => rfl
  | ok key =>
    simp only [ok_bind]
    cases putItem key with
    | error e => rfl
    | ok first =>
      simp only [ok_bind]
      cases fv v <;> rfl

theorem encodeItems_ok {vs : List Value} {items : List (Option Bytes)}
    (h : List.Forall₂ (Writes f) vs items) : encodeItems f vs = .ok (frames items) := by
  induction h with
  | nil => rfl
  | cons hv _ ih => rw [encodeItems_cons, writeItem_ok hv, ok_bind, ih, ok_bind, frames_cons]

theorem of_encodeItems {vs : List Value} {b : Bytes} (h : encodeItems f vs = .ok b) :
    ∃ items, List.Forall₂ (Writes f) vs items ∧ b = frames items := by
  induction vs generalizing b with
  | nil =>
    cases h
    exact ⟨[], .nil, rfl⟩
  | cons v vs ih =>
    rw [encodeItems_cons] at h
    obtain ⟨first, hfirst, h⟩ := bind_eq_ok.mp h
    obtain ⟨rest, hrest, h⟩ := bind_eq_ok.mp h
    cases h
    obtain ⟨item, hitem, rfl⟩ := of_writeItem hfirst
    obtain ⟨items, hitems, rfl⟩ := ih hrest
    exact ⟨item :: items, .cons hitem hitems, rfl⟩

theorem encodeItems_error {vs : List Value} {e : ClientError} (h : encodeItems f vs = .error e) :
    ∃ v ∈ vs, writeItem f v = .error e := by
  induction vs with
  | nil => cases h
  | cons v vs ih =>
    rw [encodeItems_cons] at h
    cases hw : writeItem f v with
    | error e' =>
      rw [hw] at h
      cases h
      exact ⟨v, List.mem_cons_self, hw⟩
    | ok first =>
      rw [hw, ok_bind] at h
      cases hrest : encodeItems f vs with
      | error e' =>
        rw [hrest] at h
        cases h
        obtain ⟨w, hmem, hw⟩ := ih hrest
        exact ⟨w, List.mem_cons_of_mem _ hmem, hw⟩
      | ok rest =>
        rw [hrest] at h
        cases h

/-- The items of pairs, one pair after the other. -/
def byTurns (pairs : List (Option Bytes × Option Bytes)) : List (Option Bytes) :=
  pairs.flatMap fun p => [p.1, p.2]

theorem byTurns_cons (p : Option Bytes × Option Bytes) (pairs : List (Option Bytes × Option Bytes)) :
    byTurns (p :: pairs) = p.1 :: p.2 :: byTurns pairs := rfl

theorem length_byTurns (pairs : List (Option Bytes × Option Bytes)) :
    (byTurns pairs).length = pairs.length * 2 := by
  induction pairs with
  | nil => rfl
  | cons p pairs ih =>
    rw [byTurns_cons, List.length_cons, List.length_cons, List.length_cons, ih]
    omega

theorem mem_byTurns {item : Option Bytes} {pairs : List (Option Bytes × Option Bytes)} :
    item ∈ byTurns pairs ↔ ∃ p ∈ pairs, item = p.1 ∨ item = p.2 := by
  simp [byTurns, List.mem_flatMap]

/-- Keys are at the even positions and values at the odd ones. -/
def byParity {α : Type} (even odd : α) (i : Nat) : α :=
  if i % 2 = 0 then even else odd

theorem byParity_even {α : Type} (even odd : α) (i : Nat) : byParity even odd (2 * i) = even :=
  if_pos (by omega)

theorem byParity_odd {α : Type} (even odd : α) (i : Nat) : byParity even odd (2 * i + 1) = odd :=
  if_neg (by omega)

theorem byParity_add_two {α : Type} (even odd : α) (i : Nat) :
    byParity even odd (i + 1 + 1) = byParity even odd i := by
  unfold byParity
  rw [Nat.add_assoc, Nat.add_mod_right]

theorem getElem?_byTurns (pairs : List (Option Bytes × Option Bytes)) (i : Nat) :
    (byTurns pairs)[i]? = pairs[i / 2]?.map (byParity Prod.fst Prod.snd i) := by
  induction pairs generalizing i with
  | nil => rfl
  | cons p pairs ih =>
    rw [byTurns_cons]
    cases i with
    | zero => rfl
    | succ i =>
      cases i with
      | zero => rfl
      | succ i =>
        have hhalf : (i + 1 + 1) / 2 = i / 2 + 1 := by omega
        rw [hhalf, List.getElem?_cons_succ, List.getElem?_cons_succ, List.getElem?_cons_succ, ih,
          byParity_add_two]

/-- What `fk` and `fv` write for the key and the value. -/
def WritesEntry (fk fv : Value → Result (Option Bytes)) (entry : Value × Value)
    (pair : Option Bytes × Option Bytes) : Prop :=
  Writes fk entry.1 pair.1 ∧ Writes fv entry.2 pair.2

theorem encodeEntries_ok {entries : List (Value × Value)} {pairs : List (Option Bytes × Option Bytes)}
    (h : List.Forall₂ (WritesEntry fk fv) entries pairs) :
    encodeEntries fk fv entries = .ok (frames (byTurns pairs)) := by
  induction h with
  | nil => rfl
  | cons hv _ ih =>
    rw [encodeEntries_cons, writeItem_ok hv.1, ok_bind, writeItem_ok hv.2, ok_bind, ih, ok_bind,
      byTurns_cons, frames_cons, frames_cons, List.append_assoc]

theorem of_encodeEntries {entries : List (Value × Value)} {b : Bytes}
    (h : encodeEntries fk fv entries = .ok b) :
    ∃ pairs, List.Forall₂ (WritesEntry fk fv) entries pairs ∧ b = frames (byTurns pairs) := by
  induction entries generalizing b with
  | nil =>
    cases h
    exact ⟨[], .nil, rfl⟩
  | cons entry entries ih =>
    obtain ⟨k, v⟩ := entry
    rw [encodeEntries_cons] at h
    obtain ⟨key, hkey, h⟩ := bind_eq_ok.mp h
    obtain ⟨value, hvalue, h⟩ := bind_eq_ok.mp h
    obtain ⟨rest, hrest, h⟩ := bind_eq_ok.mp h
    cases h
    obtain ⟨first, hfirst, rfl⟩ := of_writeItem hkey
    obtain ⟨second, hsecond, rfl⟩ := of_writeItem hvalue
    obtain ⟨pairs, hpairs, rfl⟩ := ih hrest
    refine ⟨(first, second) :: pairs, .cons ⟨hfirst, hsecond⟩ hpairs, ?_⟩
    rw [byTurns_cons, frames_cons, frames_cons, List.append_assoc]

theorem encodeEntries_error {entries : List (Value × Value)} {e : ClientError}
    (h : encodeEntries fk fv entries = .error e) :
    ∃ entry ∈ entries, writeItem fk entry.1 = .error e ∨ writeItem fv entry.2 = .error e := by
  induction entries with
  | nil => cases h
  | cons entry entries ih =>
    obtain ⟨k, v⟩ := entry
    rw [encodeEntries_cons] at h
    cases hk : writeItem fk k with
    | error e' =>
      rw [hk] at h
      cases h
      exact ⟨(k, v), List.mem_cons_self, .inl hk⟩
    | ok key =>
      rw [hk, ok_bind] at h
      cases hv : writeItem fv v with
      | error e' =>
        rw [hv] at h
        cases h
        exact ⟨(k, v), List.mem_cons_self, .inr hv⟩
      | ok value =>
        rw [hv, ok_bind] at h
        cases hrest : encodeEntries fk fv entries with
        | error e' =>
          rw [hrest] at h
          cases h
          obtain ⟨w, hmem, hw⟩ := ih hrest
          exact ⟨w, List.mem_cons_of_mem _ hmem, hw⟩
        | ok rest =>
          rw [hrest] at h
          cases h

end

/-! ## Reading -/

section

variable {typeName : Unit → String} {g gk gv : Option Bytes → Result Value}

theorem decodeItems_iff {i : Nat} {items : List (Option Bytes)} {vs : List Value} :
    decodeItems typeName g i items = .ok vs ↔ List.Forall₂ (fun v item => g item = .ok v) vs items := by
  induction items generalizing i vs with
  | nil =>
    constructor
    · intro h
      cases h
      exact .nil
    · intro h
      cases h
      rfl
  | cons item items ih =>
    rw [decodeItems]
    constructor
    · intro h
      cases hg : g item with
      | error cause =>
        rw [hg] at h
        cases h
      | ok v =>
        rw [hg] at h
        obtain ⟨rest, hrest, h⟩ := bind_eq_ok.mp h
        cases h
        exact .cons hg (ih.mp hrest)
    · intro h
      cases h with
      | cons hg hrest =>
        rw [hg]
        simp only [ih.mpr hrest, ok_bind, pure_eq]

theorem decodeEntries_iff {i : Nat} {pairs : List (Option Bytes × Option Bytes)}
    {entries : List (Value × Value)} :
    decodeEntries typeName gk gv i (byTurns pairs) = .ok entries ↔
      List.Forall₂ (fun e p => gk p.1 = .ok e.1 ∧ gv p.2 = .ok e.2) entries pairs := by
  induction pairs generalizing i entries with
  | nil =>
    constructor
    · intro h
      cases h
      exact .nil
    · intro h
      cases h
      rfl
  | cons pair pairs ih =>
    obtain ⟨key, value⟩ := pair
    rw [byTurns_cons, decodeEntries]
    constructor
    · intro h
      cases hk : gk key with
      | error cause =>
        rw [hk] at h
        cases h
      | ok k =>
        cases hv : gv value with
        | error cause =>
          rw [hk, hv] at h
          cases h
        | ok v =>
          rw [hk, hv] at h
          obtain ⟨rest, hrest, h⟩ := bind_eq_ok.mp h
          cases h
          exact .cons ⟨hk, hv⟩ (ih.mp hrest)
    · intro h
      cases h with
      | cons hkv hrest =>
        rw [hkv.1, hkv.2]
        simp only [ih.mpr hrest, ok_bind, pure_eq]

theorem exists_byTurns {items : List (Option Bytes)} {count : Nat} (h : items.length = count * 2) :
    ∃ pairs, items = byTurns pairs := by
  induction count generalizing items with
  | zero =>
    rw [Nat.zero_mul, List.length_eq_zero_iff] at h
    exact ⟨[], h⟩
  | succ count ih =>
    match items, h with
    | [_], h => simp only [List.length_singleton] at h; omega
    | key :: value :: items, h =>
      simp only [List.length_cons] at h
      have hrest : items.length = count * 2 := by omega
      obtain ⟨pairs, rfl⟩ := ih hrest
      exact ⟨(key, value) :: pairs, rfl⟩

end

/-! ## Counts -/

/-- A body with a count in front of it. -/
def counted (n : Nat) (body : Result Bytes) : Result (Option Bytes) :=
  putCount n >>= fun count => body >>= fun b => .ok (some (count ++ b))

theorem counted_ok {n : Nat} {b : Bytes} (h : n ≤ maxCount) :
    counted n (.ok b) = .ok (some (Bytes.ofNat 4 n ++ b)) := by
  rw [counted, putCount_ok h, ok_bind, ok_bind]

theorem counted_error {n : Nat} {e : ClientError} (h : n ≤ maxCount) :
    counted n (.error e) = .error e := by
  rw [counted, putCount_ok h, ok_bind, error_bind]

theorem counted_too_large {n : Nat} {body : Result Bytes} (h : maxCount < n) :
    counted n body = .error (tooLarge n) := by
  rw [counted, putCount_too_large h, error_bind]

theorem encodeValue_list (element : ColumnType) (items : List Value) :
    encodeValue (.list element) (.list items) =
      counted items.length (encodeItems (encodeValue element) items) := rfl

theorem encodeValue_set (element : ColumnType) (items : List Value) :
    encodeValue (.set element) (.set items) =
      counted items.length (encodeItems (encodeValue element) items) := rfl

theorem encodeValue_map (key value : ColumnType) (entries : List (Value × Value)) :
    encodeValue (.map key value) (.map entries) =
      counted entries.length (encodeEntries (encodeValue key) (encodeValue value) entries) := rfl

end WideRow
