import WideRow.Proofs.Fits

/-! # Decoding undoes encoding -/

namespace WideRow

open Framing Result

/-! ## Announced numbers -/

namespace Value

/-- The number of items or entries of a collection. -/
def count? : Value → Option Nat
  | list items | set items => some items.length
  | map entries => some entries.length
  | _ => none

/-- The components of a structure. -/
def components : Value → List (Option Bytes)
  | udt _ components | tuple _ components => components
  | _ => []

end Value

/-- To write `v` for the type `t` is to write the item `x` for the type `u` among others. -/
inductive HasItem : ColumnType → Value → ColumnType → Value → Prop
  | list {element : ColumnType} {items : List Value} {x : Value} (h : x ∈ items) :
      HasItem (.list element) (.list items) element x
  | set {element : ColumnType} {items : List Value} {x : Value} (h : x ∈ items) :
      HasItem (.set element) (.set items) element x
  | key {key value : ColumnType} {entries : List (Value × Value)} {e : Value × Value}
      (h : e ∈ entries) : HasItem (.map key value) (.map entries) key e.1
  | value {key value : ColumnType} {entries : List (Value × Value)} {e : Value × Value}
      (h : e ∈ entries) : HasItem (.map key value) (.map entries) value e.2

/-- The counts and lengths of items that writing a value announces, at any depth. -/
inductive Announces : ColumnType → Value → Nat → Prop
  | count {t : ColumnType} {v : Value} {n : Nat} (h : v.count? = some n) : Announces t v n
  | component {t : ColumnType} {v : Value} {b : Bytes} (h : some b ∈ v.components) :
      Announces t v b.length
  | item {t u : ColumnType} {v x : Value} {b : Bytes} (h : HasItem t v u x)
      (written : encodeValue u x = .ok (some b)) : Announces t v b.length
  | inner {t u : ColumnType} {v x : Value} {n : Nat} (h : HasItem t v u x)
      (announced : Announces u x n) : Announces t v n

/-! ## Outcomes -/

/-- The value is written and read back, no announced number being too large. -/
def Returns (decode : Option Bytes → Result Value) (t : ColumnType) (v : Value) : Prop :=
  ∃ raw, encodeValue t v = .ok raw ∧ decode raw = .ok v ∧ ∀ n, Announces t v n → n ≤ maxCount

/-- The value is not written, as an announced number is too large. -/
def Exceeds (t : ColumnType) (v : Value) : Prop :=
  ∃ n, Announces t v n ∧ maxCount < n ∧ encodeValue t v = .error (tooLarge n)

def RoundTrips (t : ColumnType) (v : Value) : Prop :=
  Returns (decodeElement t) t v ∨ Exceeds t v

theorem decodeElement_none (t : ColumnType) : decodeElement t none = .ok .null := by
  cases t <;> rfl

theorem encodeValue_null (t : ColumnType) : encodeValue t .null = .ok none := by
  cases t <;> rfl

theorem not_hasItem_of_plain {t u : ColumnType} {v x : Value} (h : v.isCollection = false) :
    ¬ HasItem t v u x := by
  intro hitem
  cases hitem <;> cases h

theorem announces_plain {t : ColumnType} {v : Value} {n : Nat} (h : v.isCollection = false)
    (ha : Announces t v n) : ∃ b, some b ∈ v.components ∧ n = b.length := by
  cases ha with
  | count hc => cases v <;> cases h <;> cases hc
  | component hb => exact ⟨_, hb, rfl⟩
  | item hitem => exact absurd hitem (not_hasItem_of_plain h)
  | inner hitem => exact absurd hitem (not_hasItem_of_plain h)

theorem components_of_holds {kind : ScalarKind} {v : Value} (h : kind.Holds v) :
    v.isCollection = false ∧ v.components = [] := by
  unfold ScalarKind.Holds at h
  split at h
  case h_22 => exact h.elim
  all_goals exact ⟨rfl, rfl⟩

/-! ## Items -/

section

variable {t u : ColumnType} {v x : Value}

theorem returns_of_writes {item : Option Bytes} (hw : Writes (encodeValue u) x item)
    (hx : RoundTrips u x) : decodeElement u item = .ok x ∧ ∀ n, Announces u x n → n ≤ maxCount := by
  rcases hx with ⟨raw, hraw, hdecode, hn⟩ | ⟨n, -, -, herr⟩
  · rw [hw.1] at hraw
    cases hraw
    exact ⟨hdecode, hn⟩
  · rw [hw.1] at herr
    cases herr

theorem exceeds_of_item {e : ClientError} (hitem : HasItem t v u x) (hx : RoundTrips u x)
    (hv : encodeValue t v = .error e) (h : writeItem (encodeValue u) x = .error e) : Exceeds t v := by
  rcases writeItem_error h with h | ⟨b, hb, hlt, rfl⟩
  · rcases hx with ⟨raw, hraw, -⟩ | ⟨n, hn, hlt, herr⟩
    · rw [hraw] at h
      cases h
    · rw [herr] at h
      cases h
      exact ⟨n, .inner hitem hn, hlt, hv⟩
  · exact ⟨b.length, .item hitem hb, hlt, hv⟩

theorem announced_le {n m : Nat} (hcount : v.count? = some n)
    (hitems : ∀ u x, HasItem t v u x → RoundTrips u x ∧ ∃ item, Writes (encodeValue u) x item)
    (hm : Announces t v m) : m = n ∨ m ≤ maxCount := by
  cases hm with
  | count h =>
    rw [hcount] at h
    cases h
    exact .inl rfl
  | component h => cases v <;> cases hcount <;> cases h
  | item hitem hb =>
    obtain ⟨-, item, hw⟩ := hitems _ _ hitem
    rw [hw.1] at hb
    cases hb
    exact .inr (short_some.mp hw.2)
  | inner hitem ha =>
    obtain ⟨hx, item, hw⟩ := hitems _ _ hitem
    exact .inr ((returns_of_writes hw hx).2 m ha)

theorem roundTrips_counted {n : Nat} {body : Result Bytes} (hcount : v.count? = some n)
    (hencode : encodeValue t v = counted n body) (hitems : ∀ u x, HasItem t v u x → RoundTrips u x)
    (herror : ∀ e, body = .error e → ∃ u x, HasItem t v u x ∧ writeItem (encodeValue u) x = .error e)
    (hok : ∀ b, body = .ok b →
      (∀ u x, HasItem t v u x → ∃ item, Writes (encodeValue u) x item) ∧
        (n ≤ maxCount → decodeElement t (some (Bytes.ofNat 4 n ++ b)) = .ok v)) :
    RoundTrips t v := by
  by_cases hn : n ≤ maxCount
  · cases hb : body with
    | error e =>
      -- The item at fault exceeds, and the collection fails with the item's error.
      obtain ⟨u, x, hitem, hw⟩ := herror e hb
      refine .inr (exceeds_of_item hitem (hitems u x hitem) ?_ hw)
      rw [hencode, hb, counted_error hn]
    | ok b =>
      obtain ⟨hwrites, hdecode⟩ := hok b hb
      refine .inl ⟨some (Bytes.ofNat 4 n ++ b), ?_, hdecode hn, ?_⟩
      · rw [hencode, hb, counted_ok hn]
      · intro m hm
        have hall := fun u x hitem => And.intro (hitems u x hitem) (hwrites u x hitem)
        rcases announced_le hcount hall hm with rfl | hm
        · exact hn
        · exact hm
  · -- The count is looked at before any item.
    rw [Nat.not_le] at hn
    exact .inr ⟨n, .count hcount, hn, by rw [hencode, counted_too_large hn]⟩

end

/-! ## Each type -/

theorem roundTrips_null (t : ColumnType) : RoundTrips t .null := by
  refine .inl ⟨none, encodeValue_null t, decodeElement_none t, ?_⟩
  intro n hn
  obtain ⟨b, hb, -⟩ := announces_plain rfl hn
  cases hb

theorem roundTrips_scalar {kind : ScalarKind} {v : Value} (h : kind.Holds v) :
    RoundTrips (.scalar kind) v := by
  obtain ⟨b, hencode, hdecode⟩ := Scalar.encode_of_holds h
  refine .inl ⟨some b, hencode, hdecode, ?_⟩
  intro n hn
  obtain ⟨hplain, hcomponents⟩ := components_of_holds h
  obtain ⟨c, hc, -⟩ := announces_plain hplain hn
  rw [hcomponents] at hc
  cases hc

theorem roundTrips_custom {className s : String} (h : CustomText.clean (Text.Utf8.encode s) = s) :
    RoundTrips (.custom className) (.text s) := by
  refine .inl ⟨some (Text.Utf8.encode s), rfl, by rw [decodeElement, h], ?_⟩
  intro n hn
  obtain ⟨b, hb, -⟩ := announces_plain rfl hn
  cases hb

theorem decodeItems_of_writes {typeName : Unit → String} {element : ColumnType} {items : List Value}
    {raws : List (Option Bytes)} (hraws : List.Forall₂ (Writes (encodeValue element)) items raws)
    (h : ∀ x ∈ items, RoundTrips element x) :
    decodeItems typeName (decodeElement element) 0 raws = .ok items := by
  rw [decodeItems_iff]
  refine List.Forall₂.imp ?_ ((List.forall₂_and_left items raws).mpr ⟨h, hraws⟩)
  rintro x raw ⟨hx, hw⟩
  exact (returns_of_writes hw hx).1

theorem short_of_writes {f : Value → Result (Option Bytes)} {items : List Value}
    {raws : List (Option Bytes)} (hraws : List.Forall₂ (Writes f) items raws) :
    ∀ raw ∈ raws, Short raw := by
  intro raw hraw
  obtain ⟨x, -, hw⟩ := exists_left hraws hraw
  exact hw.2

theorem roundTrips_items {t element : ColumnType} {v : Value} {items : List Value}
    (hcount : v.count? = some items.length)
    (hencode : encodeValue t v = counted items.length (encodeItems (encodeValue element) items))
    (hitem : ∀ u x, HasItem t v u x ↔ u = element ∧ x ∈ items)
    (hdecode : ∀ b raws, readCollection 1 b = .ok raws →
      (∀ name, decodeItems name (decodeElement element) 0 raws = .ok items) →
      decodeElement t (some b) = .ok v)
    (h : ∀ x ∈ items, RoundTrips element x) : RoundTrips t v := by
  refine roundTrips_counted hcount hencode ?_ ?_ ?_
  · intro u x hx
    obtain ⟨rfl, hx⟩ := (hitem u x).mp hx
    exact h x hx
  · intro e he
    obtain ⟨x, hx, hw⟩ := encodeItems_error he
    exact ⟨element, x, (hitem element x).mpr ⟨rfl, hx⟩, hw⟩
  · intro b hb
    obtain ⟨raws, hraws, rfl⟩ := of_encodeItems hb
    refine ⟨?_, ?_⟩
    · intro u x hx
      obtain ⟨rfl, hx⟩ := (hitem u x).mp hx
      obtain ⟨raw, -, hw⟩ := exists_right hraws hx
      exact ⟨raw, hw⟩
    · intro hn
      have hlength : raws.length = items.length * 1 := by rw [← hraws.length_eq, Nat.mul_one]
      have hread := readCollection_frames hn hlength (short_of_writes hraws)
      exact hdecode _ raws hread fun name => decodeItems_of_writes hraws h

theorem hasItem_list {element u : ColumnType} {items : List Value} {x : Value} :
    HasItem (.list element) (.list items) u x ↔ u = element ∧ x ∈ items := by
  constructor
  · rintro ⟨hx⟩
    exact ⟨rfl, hx⟩
  · rintro ⟨rfl, hx⟩
    exact .list hx

theorem hasItem_set {element u : ColumnType} {items : List Value} {x : Value} :
    HasItem (.set element) (.set items) u x ↔ u = element ∧ x ∈ items := by
  constructor
  · intro h
    cases h with
    | set hx => exact ⟨rfl, hx⟩
  · rintro ⟨rfl, hx⟩
    exact .set hx

theorem roundTrips_list {element : ColumnType} {items : List Value}
    (h : ∀ x ∈ items, RoundTrips element x) : RoundTrips (.list element) (.list items) := by
  refine roundTrips_items rfl (encodeValue_list element items) (fun u x => hasItem_list) ?_ h
  intro b raws hread hitems
  simp only [decodeElement, hread, framed, ok_bind, hitems, pure_eq]

theorem roundTrips_set {element : ColumnType} {items : List Value}
    (hbuilt : Value.setOf items = .set items) (h : ∀ x ∈ items, RoundTrips element x) :
    RoundTrips (.set element) (.set items) := by
  refine roundTrips_items rfl (encodeValue_set element items) (fun u x => hasItem_set) ?_ h
  intro b raws hread hitems
  simp only [decodeElement, hread, framed, ok_bind, hitems, pure_eq, hbuilt]

theorem decodeEntries_of_writes {typeName : Unit → String} {key value : ColumnType}
    {entries : List (Value × Value)} {pairs : List (Option Bytes × Option Bytes)}
    (hpairs : List.Forall₂ (WritesEntry (encodeValue key) (encodeValue value)) entries pairs)
    (h : ∀ e ∈ entries, RoundTrips key e.1 ∧ RoundTrips value e.2) :
    decodeEntries typeName (decodeElement key) (decodeElement value) 0 (byTurns pairs) =
      .ok entries := by
  rw [decodeEntries_iff]
  refine List.Forall₂.imp ?_ ((List.forall₂_and_left entries pairs).mpr ⟨h, hpairs⟩)
  rintro e p ⟨⟨hk, hv⟩, hwk, hwv⟩
  exact ⟨(returns_of_writes hwk hk).1, (returns_of_writes hwv hv).1⟩

theorem short_byTurns_of_writes {fk fv : Value → Result (Option Bytes)}
    {entries : List (Value × Value)} {pairs : List (Option Bytes × Option Bytes)}
    (hpairs : List.Forall₂ (WritesEntry fk fv) entries pairs) : ∀ raw ∈ byTurns pairs, Short raw := by
  intro raw hraw
  obtain ⟨p, hp, hside⟩ := mem_byTurns.mp hraw
  obtain ⟨e, -, hw⟩ := exists_left hpairs hp
  rcases hside with rfl | rfl
  · exact hw.1.2
  · exact hw.2.2

theorem roundTrips_map {key value : ColumnType} {entries : List (Value × Value)}
    (hbuilt : Value.mapOf entries = .map entries)
    (h : ∀ e ∈ entries, RoundTrips key e.1 ∧ RoundTrips value e.2) :
    RoundTrips (.map key value) (.map entries) := by
  refine roundTrips_counted rfl (encodeValue_map key value entries) ?_ ?_ ?_
  · intro u x hx
    cases hx with
    | key he => exact (h _ he).1
    | value he => exact (h _ he).2
  · intro e he
    obtain ⟨entry, hentry, hw | hw⟩ := encodeEntries_error he
    · exact ⟨key, entry.1, .key hentry, hw⟩
    · exact ⟨value, entry.2, .value hentry, hw⟩
  · intro b hb
    obtain ⟨pairs, hpairs, rfl⟩ := of_encodeEntries hb
    refine ⟨?_, ?_⟩
    · intro u x hx
      cases hx with
      | key he =>
        obtain ⟨p, -, hw⟩ := exists_right hpairs he
        exact ⟨p.1, hw.1⟩
      | value he =>
        obtain ⟨p, -, hw⟩ := exists_right hpairs he
        exact ⟨p.2, hw.2⟩
    · intro hn
      have hlength : (byTurns pairs).length = entries.length * 2 := by
        rw [length_byTurns, ← hpairs.length_eq]
      have hread := readCollection_frames hn hlength (short_byTurns_of_writes hpairs)
      rw [decodeElement, hread]
      simp only [framed, ok_bind, decodeEntries_of_writes hpairs h, pure_eq, hbuilt]

theorem roundTrips_components {t : ColumnType} {v : Value} (hplain : v.isCollection = false)
    (hencode : encodeValue t v = some <$> putItems v.components)
    (hdecode : (∀ raw ∈ v.components, Short raw) →
      decodeElement t (some (frames v.components)) = .ok v) : RoundTrips t v := by
  by_cases hshort : ∀ raw ∈ v.components, Short raw
  · refine .inl ⟨some (frames v.components), ?_, hdecode hshort, ?_⟩
    · rw [hencode, putItems_ok hshort, map_ok]
    · intro n hn
      obtain ⟨b, hb, rfl⟩ := announces_plain hplain hn
      exact short_some.mp (hshort _ hb)
  · obtain ⟨b, hb, hlt, herr⟩ := putItems_too_large hshort
    exact .inr ⟨b.length, .component hb, hlt, by rw [hencode, herr, map_error]⟩

theorem roundTrips_udt {definition : UdtType} {components : List (Option Bytes)}
    (h : components.length ≤ definition.fields.length) :
    RoundTrips (.udt definition) (.udt definition components) := by
  refine roundTrips_components rfl rfl ?_
  intro hshort
  change ∀ raw ∈ components, Short raw at hshort
  have hle : ¬ definition.fields.length < components.length := by omega
  simp only [Value.components, decodeElement, readStructure_frames hshort, framed, ok_bind, hle, if_false,
    pure_eq]

theorem roundTrips_tuple {types : List ColumnType} {components : List (Option Bytes)}
    (h : components.length ≤ types.length) :
    RoundTrips (.tuple types) (.tuple types components) := by
  refine roundTrips_components rfl rfl ?_
  intro hshort
  change ∀ raw ∈ components, Short raw at hshort
  have hle : ¬ types.length < components.length := by omega
  simp only [Value.components, decodeElement, readStructure_frames hshort, framed, ok_bind, hle, if_false,
    pure_eq]

/-! ## Every type -/

theorem roundTrips_element {t : ColumnType} {v : Value} (hfits : FitsElement t v) (hbuilt : v.Built) :
    RoundTrips t v := by
  induction hfits with
  | null => exact roundTrips_null _
  | scalar held => exact roundTrips_scalar held
  | custom cleaned => exact roundTrips_custom cleaned
  | list _ ih => exact roundTrips_list fun x hx => ih x hx (hbuilt.of_list x hx)
  | set _ ih =>
    obtain ⟨hset, hbuilt⟩ := hbuilt.of_set
    exact roundTrips_set hset fun x hx => ih x hx (hbuilt x hx)
  | map _ _ ihk ihv =>
    obtain ⟨hmap, hbuilt⟩ := hbuilt.of_map
    exact roundTrips_map hmap fun e he => ⟨ihk e he (hbuilt e he).1, ihv e he (hbuilt e he).2⟩
  | udt declared => exact roundTrips_udt declared
  | tuple declared => exact roundTrips_tuple declared

/-- Every built value that fits a column type is written and decoded to itself, in order and bit for
bit, unless a count or the length of an item is more than four bytes can announce; then the write
fails for such a number and for nothing else. -/
theorem decodeValue_encodeValue {t : ColumnType} {v : Value} (hfits : Fits t v) (hbuilt : v.Built) :
    (∃ raw, encodeValue t v = .ok raw ∧ decodeValue t raw = .ok v ∧
        ∀ n, Announces t v n → n ≤ maxCount) ∨
      ∃ n, Announces t v n ∧ maxCount < n ∧
        encodeValue t v = .error (.internal s!"collection of {n} items is too large") := by
  cases t with
  | custom className =>
    -- As a column, only null fits a custom type.
    cases hfits
    rcases roundTrips_null (.custom className) with ⟨raw, hraw, -, hn⟩ | hexceeds
    · exact .inl ⟨raw, hraw, rfl, hn⟩
    · exact .inr hexceeds
  | _ => exact roundTrips_element hfits hbuilt

/-- A set of numbers that holds what is no number twice, under a text. -/
theorem decodeValue_encodeValue_map :
    let t := ColumnType.map (.scalar .text) (.set (.scalar .double))
    let nan := Value.double ⟨0x7FF8000000000000⟩
    let v := Value.mapOf [(.text "k", .setOf [nan, .double ⟨0x8000000000000000⟩, nan, .null])]
    (Fits t v ∧ v.Built) ∧
      ((∃ raw, encodeValue t v = .ok raw ∧ decodeValue t raw = .ok v ∧
          ∀ n, Announces t v n → n ≤ maxCount) ∨
        ∃ n, Announces t v n ∧ maxCount < n ∧
          encodeValue t v = .error (.internal s!"collection of {n} items is too large")) := by
  intro t nan v
  have hset : FitsElement (.set (.scalar .double))
      (.setOf [nan, .double ⟨0x8000000000000000⟩, nan, .null]) := by
    refine fitsElement_setOf ?_
    simp only [List.forall_mem_cons]
    exact ⟨.scalar trivial, .scalar trivial, .scalar trivial, .null, List.forall_mem_nil _⟩
  have hbuiltSet : Value.Built (.setOf [nan, .double ⟨0x8000000000000000⟩, nan, .null]) := by
    refine .set ?_
    simp only [List.forall_mem_cons]
    exact ⟨.plain rfl, .plain rfl, .plain rfl, .plain rfl, List.forall_mem_nil _⟩
  have hfits : Fits t v := by
    refine fitsElement_mapOf ?_
    simp only [List.forall_mem_cons]
    exact ⟨⟨.scalar trivial, hset⟩, List.forall_mem_nil _⟩
  have hbuilt : v.Built := by
    refine .map ?_ ?_ <;> simp only [List.forall_mem_cons]
    · exact ⟨.plain rfl, List.forall_mem_nil _⟩
    · exact ⟨hbuiltSet, List.forall_mem_nil _⟩
  exact ⟨⟨hfits, hbuilt⟩, decodeValue_encodeValue hfits hbuilt⟩

end WideRow
