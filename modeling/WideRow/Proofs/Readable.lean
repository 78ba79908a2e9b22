import WideRow.Proofs.FirstFault
import WideRow.Proofs.Refusal

/-!
# Whether what was written can be read

Writing looks at the kinds of values only. What it writes can be read unless a text that is not of
ASCII characters stands for the type `ascii`, or a structure has more components than are declared.
-/

namespace WideRow

open Framing Result

/-! ## What cannot be read -/

/-- Raw bytes where the type does not say so. -/
def Stray (t : ColumnType) (v : Value) : Prop :=
  ∃ b, v = .blob b ∧ t ≠ .scalar .blob

/-- Values that are of the kind of the type and yet not what reading takes for one. -/
inductive Unreadable : ColumnType → Value → Prop
  | ascii {s : String} {c : Char} (hc : c ∈ s.toList) (h : 128 ≤ c.toNat) :
      Unreadable (.scalar .ascii) (.text s)
  | udt {definition built : UdtType} {components : List (Option Bytes)}
      (h : definition.fields.length < components.length) :
      Unreadable (.udt definition) (.udt built components)
  | tuple {types built : List ColumnType} {components : List (Option Bytes)}
      (h : types.length < components.length) : Unreadable (.tuple types) (.tuple built components)

/-- Of the values without stray bytes exactly those that can be read are read back from what was
written. -/
def ReadsBack (t : ColumnType) : Prop :=
  ∀ v raw, ¬ Within Stray t v → encodeValue t v = .ok raw →
    ((∃ w, decodeElement t raw = .ok w) ↔ ¬ Within Unreadable t v)

theorem eq_null_of_encodeValue {t : ColumnType} {v : Value} (h : encodeValue t v = .ok none) :
    v = .null := by
  by_contra hnull
  by_cases hblob : ∃ b, v = .blob b
  · obtain ⟨b, rfl⟩ := hblob
    rw [encodeValue_blob] at h
    cases h
  · cases suits_of_encodeValue h hnull fun b hb => hblob ⟨b, hb⟩ with
    | scalar held =>
      obtain ⟨b, hb, -⟩ := Scalar.encode_of_holds held
      rw [hb] at h
      cases h
    | ascii | custom => cases h
    | list | set | map =>
      obtain ⟨-, b, -, hraw⟩ := of_counted h
      cases hraw
    | udt | tuple =>
      obtain ⟨b, -, hraw⟩ := map_eq_ok.mp h
      cases hraw

theorem within_plain {P : ColumnType → Value → Prop} {t : ColumnType} {v : Value}
    (hplain : v.isCollection = false) : Within P t v ↔ P t v := by
  constructor
  · intro hwithin
    cases hwithin with
    | here h => exact h
    | item hitem => exact absurd hitem (not_hasItem_of_plain hplain)
  · exact .here

theorem readsBack_of_suits {t : ColumnType}
    (h : ∀ v b, Suits t v → (∀ c, v ≠ .blob c) → ¬ Within Stray t v →
      encodeValue t v = .ok (some b) →
        ((∃ w, decodeElement t (some b) = .ok w) ↔ ¬ Within Unreadable t v)) :
    ReadsBack t := by
  intro v raw hstray hencode
  cases raw with
  | none =>
    obtain rfl := eq_null_of_encodeValue hencode
    rw [decodeElement_none, within_plain rfl]
    refine iff_of_true ⟨_, rfl⟩ ?_
    rintro ⟨⟩
  | some b =>
    by_cases hblob : ∃ c, v = .blob c
    · obtain ⟨c, rfl⟩ := hblob
      have ht : t = .scalar .blob := by
        by_contra ht
        exact hstray (.here ⟨c, rfl, ht⟩)
      subst ht
      rw [within_plain rfl]
      refine iff_of_true ⟨_, rfl⟩ ?_
      rintro ⟨⟩
    · have hraw : ∀ c, v ≠ .blob c := fun c hc => hblob ⟨c, hc⟩
      refine h v b (suits_of_encodeValue hencode ?_ hraw) hraw hstray hencode
      rintro rfl
      rw [encodeValue_null] at hencode
      cases hencode

/-! ## Scalars -/

theorem decode_ascii_iff (s : String) :
    (∃ w, Scalar.decode .ascii (Text.Utf8.encode s) = .ok w) ↔ ∀ c ∈ s.toList, c.toNat < 128 := by
  constructor
  · rintro ⟨w, hw⟩
    obtain ⟨s', hs', -⟩ := map_eq_ok.mp hw
    obtain ⟨hencode, hascii⟩ := Scalar.of_decodeText hs'
    have hsame : s' = s := by
      have := congrArg Text.Utf8.decode hencode
      rw [Text.Utf8.decode_encode, Text.Utf8.decode_encode] at this
      cases this
      rfl
    rw [← hsame]
    exact hascii rfl
  · intro h
    refine ⟨.text s, ?_⟩
    rw [Scalar.decode, Scalar.decodeText_encode fun _ => h, map_ok]

theorem readsBack_scalar (kind : ScalarKind) : ReadsBack (.scalar kind) := by
  refine readsBack_of_suits fun v b hsuits _ _ hencode => ?_
  cases hsuits with
  | scalar held =>
    obtain ⟨b', hb', hdecode⟩ := Scalar.encode_of_holds held
    rw [hb'] at hencode
    cases hencode
    rw [within_plain (components_of_holds held).1]
    refine iff_of_true ⟨v, hdecode⟩ ?_
    rintro ⟨hc, h⟩
    have := held _ hc
    omega
  | @ascii s =>
    cases hencode
    rw [within_plain rfl]
    refine (decode_ascii_iff s).trans ?_
    constructor
    · rintro h ⟨hc, hlarge⟩
      have := h _ hc
      omega
    · intro h c hc
      by_contra hlarge
      exact h (.ascii hc (by omega))

theorem readsBack_custom (className : String) : ReadsBack (.custom className) := by
  refine readsBack_of_suits fun v b hsuits _ _ _ => ?_
  cases hsuits with
  | custom =>
    rw [within_plain rfl]
    refine iff_of_true ⟨_, rfl⟩ ?_
    rintro ⟨⟩

/-! ## Structures -/

theorem decodeElement_udt_iff {definition : UdtType} {components : List (Option Bytes)}
    (hshort : ∀ item ∈ components, Short item) :
    (∃ w, decodeElement (.udt definition) (some (frames components)) = .ok w) ↔
      components.length ≤ definition.fields.length := by
  constructor
  · rintro ⟨w, hw⟩
    obtain ⟨components', hread, hle, -⟩ := of_decode_udt hw
    rw [readStructure_frames hshort] at hread
    cases hread
    exact hle
  · intro hle
    have hlt : ¬ definition.fields.length < components.length := by omega
    refine ⟨.udt definition components, ?_⟩
    simp only [decodeElement, readStructure_frames hshort, framed, ok_bind, hlt, if_false, pure_eq]

theorem decodeElement_tuple_iff {types : List ColumnType} {components : List (Option Bytes)}
    (hshort : ∀ item ∈ components, Short item) :
    (∃ w, decodeElement (.tuple types) (some (frames components)) = .ok w) ↔
      components.length ≤ types.length := by
  constructor
  · rintro ⟨w, hw⟩
    obtain ⟨components', hread, hle, -⟩ := of_decode_tuple hw
    rw [readStructure_frames hshort] at hread
    cases hread
    exact hle
  · intro hle
    have hlt : ¬ types.length < components.length := by omega
    refine ⟨.tuple types components, ?_⟩
    simp only [decodeElement, readStructure_frames hshort, framed, ok_bind, hlt, if_false, pure_eq]

theorem readsBack_udt (definition : UdtType) : ReadsBack (.udt definition) := by
  refine readsBack_of_suits fun v b hsuits _ _ hencode => ?_
  cases hsuits with
  | udt =>
    obtain ⟨b', hput, hb⟩ := map_eq_ok.mp hencode
    cases hb
    obtain ⟨hshort, rfl⟩ := short_of_putItems hput
    rw [within_plain rfl, decodeElement_udt_iff hshort, ← Nat.not_lt, not_iff_not]
    constructor
    · exact .udt
    · rintro ⟨h⟩
      assumption

theorem readsBack_tuple (types : List ColumnType) : ReadsBack (.tuple types) := by
  refine readsBack_of_suits fun v b hsuits _ _ hencode => ?_
  cases hsuits with
  | tuple =>
    obtain ⟨b', hput, hb⟩ := map_eq_ok.mp hencode
    cases hb
    obtain ⟨hshort, rfl⟩ := short_of_putItems hput
    rw [within_plain rfl, decodeElement_tuple_iff hshort, ← Nat.not_lt, not_iff_not]
    constructor
    · exact .tuple
    · rintro ⟨h⟩
      assumption

/-! ## Collections -/

/-- The raw items of a body are what is written for the items of the value, each by the type of its
position. -/
structure Laid (t : ColumnType) (v : Value) (itemType : Nat → ColumnType)
    (raws : List (Option Bytes)) : Prop where
  written : ∀ (i : Nat) raw, raws[i]? = some raw →
    ∃ x, HasItem t v (itemType i) x ∧ encodeValue (itemType i) x = .ok raw
  placed : ∀ u x, HasItem t v u x →
    ∃ (i : Nat) (raw : Option Bytes), raws[i]? = some raw ∧ itemType i = u ∧
      encodeValue u x = .ok raw

theorem laid_items {t element : ColumnType} {v : Value} {items : List Value}
    {raws : List (Option Bytes)} (hitem : ∀ u x, HasItem t v u x ↔ u = element ∧ x ∈ items)
    (hraws : List.Forall₂ (Writes (encodeValue element)) items raws) :
    Laid t v (fun _ => element) raws := by
  constructor
  · intro i raw hraw
    obtain ⟨x, hx, hw⟩ := exists_left hraws (List.mem_of_getElem? hraw)
    exact ⟨x, (hitem element x).mpr ⟨rfl, hx⟩, hw.1⟩
  · intro u x hx
    obtain ⟨rfl, hx⟩ := (hitem u x).mp hx
    obtain ⟨raw, hmem, hw⟩ := exists_right hraws hx
    obtain ⟨i, hraw⟩ := List.mem_iff_getElem?.mp hmem
    exact ⟨i, raw, hraw, rfl, hw.1⟩

theorem laid_entries {key value : ColumnType} {entries : List (Value × Value)}
    {pairs : List (Option Bytes × Option Bytes)}
    (hpairs : List.Forall₂ (WritesEntry (encodeValue key) (encodeValue value)) entries pairs) :
    Laid (.map key value) (.map entries) (byParity key value) (byTurns pairs) := by
  constructor
  · intro i raw hraw
    rw [getElem?_byTurns] at hraw
    obtain ⟨p, hp, rfl⟩ := Option.map_eq_some_iff.mp hraw
    obtain ⟨e, he, hw⟩ := exists_left hpairs (List.mem_of_getElem? hp)
    unfold byParity
    split
    · exact ⟨e.1, .key he, hw.1.1⟩
    · exact ⟨e.2, .value he, hw.2.1⟩
  · intro u x hx
    cases hx with
    | key he =>
      obtain ⟨p, hmem, hw⟩ := exists_right hpairs he
      obtain ⟨j, hp⟩ := List.mem_iff_getElem?.mp hmem
      refine ⟨2 * j, p.1, ?_, byParity_even key value j, hw.1.1⟩
      rw [getElem?_byTurns, byParity_even, Nat.mul_div_cancel_left j (by decide), hp]
      rfl
    | value he =>
      obtain ⟨p, hmem, hw⟩ := exists_right hpairs he
      obtain ⟨j, hp⟩ := List.mem_iff_getElem?.mp hmem
      refine ⟨2 * j + 1, p.2, ?_, byParity_odd key value j, hw.2.1⟩
      have hhalf : (2 * j + 1) / 2 = j := by omega
      rw [getElem?_byTurns, byParity_odd, hhalf, hp]
      rfl

theorem laid_counted {t element : ColumnType} {v : Value} {items : List Value} {b : Bytes}
    (hitem : ∀ u x, HasItem t v u x ↔ u = element ∧ x ∈ items)
    (h : counted items.length (encodeItems (encodeValue element) items) = .ok (some b)) :
    ∃ raws, WireBody 1 raws b ∧ Laid t v (fun _ => element) raws := by
  obtain ⟨hn, body, hbody, hb⟩ := of_counted h
  cases hb
  obtain ⟨raws, hraws, rfl⟩ := of_encodeItems hbody
  have hlength : raws.length = items.length * 1 := by rw [← hraws.length_eq, Nat.mul_one]
  have hread := readCollection_frames hn hlength (short_of_writes hraws)
  exact ⟨raws, readCollection_eq_ok_iff.mp hread, laid_items hitem hraws⟩

theorem laid_of_encodeValue {t : ColumnType} {perEntry : Nat} {itemType : Nat → ColumnType}
    (ht : t.Collects perEntry itemType) {v : Value} {b : Bytes} (hsuits : Suits t v)
    (hencode : encodeValue t v = .ok (some b)) :
    ∃ raws, WireBody perEntry raws b ∧ Laid t v itemType raws := by
  cases ht with
  | list =>
    cases hsuits
    exact laid_counted (fun _ _ => hasItem_list) hencode
  | set =>
    cases hsuits
    exact laid_counted (fun _ _ => hasItem_set) hencode
  | map =>
    cases hsuits with
    | @map key value entries =>
      obtain ⟨hn, body, hbody, hb⟩ := of_counted hencode
      cases hb
      obtain ⟨pairs, hpairs, rfl⟩ := of_encodeEntries hbody
      have hlength : (byTurns pairs).length = entries.length * 2 := by
        rw [length_byTurns, ← hpairs.length_eq]
      have hread := readCollection_frames hn hlength (short_byTurns_of_writes hpairs)
      exact ⟨byTurns pairs, readCollection_eq_ok_iff.mp hread, laid_entries hpairs⟩

theorem readsBack_collection {t : ColumnType} {perEntry : Nat} {itemType : Nat → ColumnType}
    (ht : t.Collects perEntry itemType) (h : ∀ i, ReadsBack (itemType i)) : ReadsBack t := by
  refine readsBack_of_suits fun v b hsuits _ hstray hencode => ?_
  obtain ⟨raws, hbody, hwritten, hplaced⟩ := laid_of_encodeValue ht hsuits hencode
  rw [decodeElement_collection_iff ht hbody]
  constructor
  · intro hitems hwithin
    cases hwithin with
    | here hv =>
      -- A collection is unreadable for its items only.
      cases ht <;> cases hv
    | item hitem inner =>
      obtain ⟨i, raw, hraw, rfl, hx⟩ := hplaced _ _ hitem
      have hclean : ¬ Within Stray (itemType i) _ := fun hs => hstray (.item hitem hs)
      exact (h i _ raw hclean hx).mp (hitems i raw hraw) inner
  · intro hwithin i raw hraw
    obtain ⟨x, hitem, hx⟩ := hwritten i raw hraw
    have hclean : ¬ Within Stray (itemType i) x := fun hs => hstray (.item hitem hs)
    exact (h i x raw hclean hx).mpr fun hs => hwithin (.item hitem hs)

theorem readsBack (t : ColumnType) : ReadsBack t := by
  induction t using ColumnType.element_induction with
  | scalar kind => exact readsBack_scalar kind
  | custom className => exact readsBack_custom className
  | list element ih => exact readsBack_collection .list fun _ => ih
  | set element ih => exact readsBack_collection .set fun _ => ih
  | map key value ihk ihv =>
    refine readsBack_collection .map fun i => ?_
    unfold byParity
    split
    · exact ihk
    · exact ihv
  | udt definition => exact readsBack_udt definition
  | tuple types => exact readsBack_tuple types

/-- What is not written is of another kind than its type, or announces too large a number, at some
depth. What is written without stray bytes is read back exactly when no text stands for `ascii` that
is not, and no structure has more components than are declared. -/
theorem encodeValue_readable (t : ColumnType) (v : Value) :
    ((∃ e, encodeValue t v = .error e) ↔
      Within Mismatched t v ∨ ∃ n, Announces t v n ∧ maxCount < n) ∧
    (¬ Within Stray t v → ∀ b, encodeValue t v = .ok (some b) →
      ((∃ w, decodeValue t (some b) = .ok w) ↔ ¬ Within Unreadable t v)) := by
  refine ⟨encodeValue_error_iff, ?_⟩
  intro hstray b hencode
  have hreads := readsBack t v (some b) hstray hencode
  cases t with
  | custom className =>
    -- A custom column is null whatever its bytes are.
    exact iff_of_true ⟨.null, rfl⟩ (hreads.mp ⟨_, rfl⟩)
  | _ => exact hreads

/-- A text that is not of ASCII characters is written for `ascii`, and cannot be read. -/
theorem encodeValue_unreadable_ascii :
    let t := ColumnType.scalar .ascii
    let v := Value.text "é"
    ¬ Within Stray t v ∧ encodeValue t v = .ok (some [0xC3, 0xA9]) ∧
      decodeValue t (some [0xC3, 0xA9]) = .error (.decode "ascii" .nonAscii) := by
  refine ⟨?_, by decide, rfl⟩
  rw [within_plain rfl]
  rintro ⟨b, hb, -⟩
  cases hb

end WideRow
