import WideRow.Proofs.RoundTrip

/-!
# What is refused to be written

Writing fails for a value of a kind that its type does not have, at any depth, and for a number that
is more than four bytes can announce; for nothing else.
-/

namespace WideRow

open Framing Result

/-! ## At any depth -/

/-- Something holds of a value for its type, or of one of its items, at any depth. -/
inductive Within (P : ColumnType → Value → Prop) : ColumnType → Value → Prop
  | here {t : ColumnType} {v : Value} (h : P t v) : Within P t v
  | item {t u : ColumnType} {v x : Value} (h : HasItem t v u x) (inner : Within P u x) : Within P t v

/-- The kinds of values that a type has. -/
inductive Suits : ColumnType → Value → Prop
  | scalar {kind : ScalarKind} {v : Value} (held : kind.Holds v) : Suits (.scalar kind) v
  | ascii {s : String} : Suits (.scalar .ascii) (.text s)
  | custom {className s : String} : Suits (.custom className) (.text s)
  | list {element : ColumnType} {items : List Value} : Suits (.list element) (.list items)
  | set {element : ColumnType} {items : List Value} : Suits (.set element) (.set items)
  | map {key value : ColumnType} {entries : List (Value × Value)} :
      Suits (.map key value) (.map entries)
  | udt {definition built : UdtType} {components : List (Option Bytes)} :
      Suits (.udt definition) (.udt built components)
  | tuple {types built : List ColumnType} {components : List (Option Bytes)} :
      Suits (.tuple types) (.tuple built components)

/-- A value of a kind that the type does not have. Null and raw bytes are never one. -/
def Mismatched (t : ColumnType) (v : Value) : Prop :=
  v ≠ .null ∧ (∀ b, v ≠ .blob b) ∧ ¬ Suits t v

/-! ## Kinds -/

theorem encodeValue_blob (t : ColumnType) (b : Bytes) : encodeValue t (.blob b) = .ok (some b) := by
  cases t <;> rfl

theorem suits_of_encode? {kind : ScalarKind} {v : Value} {b : Bytes}
    (h : Scalar.encode? kind v = some b) : Suits (.scalar kind) v := by
  unfold Scalar.encode? at h
  split at h
  case h_1 => exact .ascii
  case h_21 => cases h
  all_goals exact .scalar trivial

theorem suits_of_encodeValue {t : ColumnType} {v : Value} {raw : Option Bytes}
    (h : encodeValue t v = .ok raw) (hnull : v ≠ .null) (hraw : ∀ b, v ≠ .blob b) : Suits t v := by
  unfold encodeValue at h
  split at h
  case h_1 => exact absurd rfl hnull
  case h_2 => exact absurd rfl (hraw _)
  case h_4 =>
    split at h
    · rename_i hb
      exact suits_of_encode? hb
    · cases h
  case h_10 => cases h
  all_goals constructor

/-! ## Numbers -/

theorem of_counted {n : Nat} {body : Result Bytes} {raw : Option Bytes}
    (h : counted n body = .ok raw) :
    n ≤ maxCount ∧ ∃ b, body = .ok b ∧ raw = some (Bytes.ofNat 4 n ++ b) := by
  by_cases hn : n ≤ maxCount
  · refine ⟨hn, ?_⟩
    rw [counted, putCount_ok hn, ok_bind] at h
    obtain ⟨b, hb, h⟩ := bind_eq_ok.mp h
    cases h
    exact ⟨b, hb, rfl⟩
  · rw [counted_too_large (Nat.not_le.mp hn)] at h
    cases h

theorem short_of_putItems {items : List (Option Bytes)} {b : Bytes} (h : putItems items = .ok b) :
    (∀ item ∈ items, Short item) ∧ b = frames items := by
  by_cases hshort : ∀ item ∈ items, Short item
  · rw [putItems_ok hshort] at h
    cases h
    exact ⟨hshort, rfl⟩
  · obtain ⟨c, -, -, herror⟩ := putItems_too_large hshort
    rw [h] at herror
    cases herror

section

variable {t u : ColumnType} {v x : Value} {raw : Option Bytes}

theorem writes_of_hasItem (h : encodeValue t v = .ok raw) (hitem : HasItem t v u x) :
    ∃ item, Writes (encodeValue u) x item := by
  cases hitem with
  | list hx | set hx =>
    obtain ⟨-, b, hb, -⟩ := of_counted h
    obtain ⟨raws, hraws, -⟩ := of_encodeItems hb
    obtain ⟨item, -, hw⟩ := exists_right hraws hx
    exact ⟨item, hw⟩
  | key he =>
    obtain ⟨-, b, hb, -⟩ := of_counted h
    obtain ⟨pairs, hpairs, -⟩ := of_encodeEntries hb
    obtain ⟨p, -, hw⟩ := exists_right hpairs he
    exact ⟨p.1, hw.1⟩
  | value he =>
    obtain ⟨-, b, hb, -⟩ := of_counted h
    obtain ⟨pairs, hpairs, -⟩ := of_encodeEntries hb
    obtain ⟨p, -, hw⟩ := exists_right hpairs he
    exact ⟨p.2, hw.2⟩

theorem count_le (h : encodeValue t v = .ok raw) {n : Nat} (hcount : v.count? = some n) :
    n ≤ maxCount := by
  have hsuits : Suits t v := by
    apply suits_of_encodeValue h
    · rintro rfl
      cases hcount
    · rintro b rfl
      cases hcount
  cases hsuits with
  | scalar held =>
    have hplain := (components_of_holds held).1
    cases v <;> cases hcount <;> cases hplain
  | list | set | map =>
    cases hcount
    exact (of_counted h).1
  | _ => cases hcount

theorem component_short (h : encodeValue t v = .ok raw) {item : Option Bytes}
    (hitem : item ∈ v.components) : Short item := by
  have hsuits : Suits t v := by
    apply suits_of_encodeValue h
    · rintro rfl
      cases hitem
    · rintro b rfl
      cases hitem
  cases hsuits with
  | scalar held =>
    rw [(components_of_holds held).2] at hitem
    cases hitem
  | udt | tuple =>
    obtain ⟨b, hput, -⟩ := map_eq_ok.mp h
    exact (short_of_putItems hput).1 item hitem
  | _ => cases hitem

theorem announced_le_of_ok (h : encodeValue t v = .ok raw) {n : Nat} (hn : Announces t v n) :
    n ≤ maxCount := by
  induction hn generalizing raw with
  | count hcount => exact count_le h hcount
  | component hb => exact short_some.mp (component_short h hb)
  | item hitem hwritten =>
    obtain ⟨item, hw⟩ := writes_of_hasItem h hitem
    rw [hw.1] at hwritten
    cases hwritten
    exact short_some.mp hw.2
  | inner hitem _ ih =>
    obtain ⟨item, hw⟩ := writes_of_hasItem h hitem
    exact ih hw.1

theorem not_mismatched_of_ok (h : encodeValue t v = .ok raw) : ¬ Within Mismatched t v := by
  intro hwithin
  induction hwithin generalizing raw with
  | here hmismatched => exact hmismatched.2.2 (suits_of_encodeValue h hmismatched.1 hmismatched.2.1)
  | item hitem _ ih =>
    obtain ⟨item, hw⟩ := writes_of_hasItem h hitem
    exact ih hw.1

/-! ## Refusing -/

/-- Why a value is not written. -/
def Refused (t : ColumnType) (v : Value) : Prop :=
  Within Mismatched t v ∨ ∃ n, Announces t v n ∧ maxCount < n

theorem Refused.item (hitem : HasItem t v u x) (h : Refused u x) : Refused t v := by
  rcases h with hwithin | ⟨n, hn, hlt⟩
  · exact .inl (.item hitem hwithin)
  · exact .inr ⟨n, .inner hitem hn, hlt⟩

variable {e : ClientError}

theorem of_counted_error {n : Nat} {body : Result Bytes} (h : counted n body = .error e) :
    maxCount < n ∨ body = .error e := by
  by_cases hn : n ≤ maxCount
  · rw [counted, putCount_ok hn, ok_bind] at h
    rcases bind_eq_error.mp h with h | ⟨b, -, h⟩
    · exact .inr h
    · cases h
  · exact .inl (Nat.not_le.mp hn)

theorem refused_counted {n : Nat} {body : Result Bytes} (hcount : v.count? = some n)
    (h : counted n body = .error e)
    (hbody : body = .error e → ∃ u x, HasItem t v u x ∧ writeItem (encodeValue u) x = .error e)
    (ih : ∀ u x, HasItem t v u x → encodeValue u x = .error e → Refused u x) : Refused t v := by
  rcases of_counted_error h with hlt | h
  · exact .inr ⟨n, .count hcount, hlt⟩
  · obtain ⟨u, x, hitem, hw⟩ := hbody h
    rcases writeItem_error hw with hx | ⟨b, hb, hlt, -⟩
    · exact (ih u x hitem hx).item hitem
    · exact .inr ⟨b.length, .item hitem hb, hlt⟩

theorem refused_components (h : (some <$> putItems v.components : Result (Option Bytes)) = .error e) :
    Refused t v := by
  by_cases hshort : ∀ item ∈ v.components, Short item
  · rw [putItems_ok hshort] at h
    cases h
  · obtain ⟨b, hb, hlt, -⟩ := putItems_too_large hshort
    exact .inr ⟨b.length, .component hb, hlt⟩

theorem refused_of_items (h : encodeValue t v = .error e)
    (ih : ∀ u x, HasItem t v u x → encodeValue u x = .error e → Refused u x) : Refused t v := by
  by_cases hsuits : Suits t v
  case neg =>
    refine .inl (.here ⟨?_, ?_, hsuits⟩)
    · rintro rfl
      rw [encodeValue_null] at h
      cases h
    · rintro b rfl
      rw [encodeValue_blob] at h
      cases h
  cases hsuits with
  | scalar held =>
    obtain ⟨b, hb, -⟩ := Scalar.encode_of_holds held
    rw [hb] at h
    cases h
  | ascii | custom => cases h
  | list | set =>
    refine refused_counted rfl h (fun hbody => ?_) ih
    obtain ⟨x, hx, hw⟩ := encodeItems_error hbody
    exact ⟨_, x, by constructor; exact hx, hw⟩
  | map =>
    refine refused_counted rfl h (fun hbody => ?_) ih
    obtain ⟨entry, hentry, hw | hw⟩ := encodeEntries_error hbody
    · exact ⟨_, entry.1, .key hentry, hw⟩
    · exact ⟨_, entry.2, .value hentry, hw⟩
  | udt | tuple => exact refused_components h

end

theorem refused_of_error {t : ColumnType} {v : Value} {e : ClientError}
    (h : encodeValue t v = .error e) : Refused t v := by
  induction t using ColumnType.element_induction generalizing v with
  | list element ih | set element ih =>
    refine refused_of_items h fun u x hitem hx => ?_
    cases hitem
    exact ih hx
  | map key value ihk ihv =>
    refine refused_of_items h fun u x hitem hx => ?_
    cases hitem with
    | key => exact ihk hx
    | value => exact ihv hx
  | _ =>
    refine refused_of_items h fun u x hitem _ => ?_
    cases hitem

/-- A value is refused for its kind or for a number, its own or an item's, and for nothing else. -/
theorem encodeValue_error_iff {t : ColumnType} {v : Value} :
    (∃ e, encodeValue t v = .error e) ↔ Refused t v := by
  constructor
  · rintro ⟨e, he⟩
    exact refused_of_error he
  · intro hrefused
    cases hencode : encodeValue t v with
    | error e => exact ⟨e, rfl⟩
    | ok raw =>
      rcases hrefused with hwithin | ⟨n, hn, hlt⟩
      · exact absurd hwithin (not_mismatched_of_ok hencode)
      · have := announced_le_of_ok hencode hn
        omega

end WideRow
