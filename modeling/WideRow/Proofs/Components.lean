import WideRow.Proofs.FirstFault
import WideRow.Value.Structure

/-!
# Components of structures

Whether the bytes of a structure are accepted is a matter of their framing: nothing is decoded before
a component is read. Reading one looks at its own item only, and the name of a field stands for the
first position that has it.
-/

namespace WideRow

open Framing Result

/-! ## Structures by their framing -/

/-- The types whose values are structures: the types of the components, and the value that has the
given ones. -/
inductive ColumnType.Composes :
    ColumnType → List ColumnType → (List (Option Bytes) → Value) → Prop
  | udt {definition : UdtType} :
    Composes (.udt definition) definition.fieldTypes (.udt definition)
  | tuple {types : List ColumnType} : Composes (.tuple types) types (.tuple types)

section

variable {t : ColumnType} {types : List ColumnType} {value : List (Option Bytes) → Value}

theorem ColumnType.Composes.decodeValue_eq (ht : t.Composes types value) (raw : Option Bytes) :
    decodeValue t raw = decodeElement t raw := by
  cases ht <;> rfl

theorem of_decode_structure (ht : t.Composes types value) {b : Bytes} {v : Value}
    (h : decodeElement t (some b) = .ok v) :
    ∃ items, WireItems items b ∧ items.length ≤ types.length ∧ v = value items := by
  cases ht with
  | udt =>
    obtain ⟨items, hread, hle, rfl⟩ := of_decode_udt h
    rw [UdtType.fieldTypes, List.length_map]
    exact ⟨items, readStructure_eq_ok_iff.mp hread, hle, rfl⟩
  | tuple =>
    obtain ⟨items, hread, hle, rfl⟩ := of_decode_tuple h
    exact ⟨items, readStructure_eq_ok_iff.mp hread, hle, rfl⟩

theorem decode_structure (ht : t.Composes types value) {b : Bytes} {items : List (Option Bytes)}
    (hitems : WireItems items b) (hle : items.length ≤ types.length) :
    decodeElement t (some b) = .ok (value items) := by
  have hread := readStructure_eq_ok_iff.mpr hitems
  cases ht with
  | @udt definition =>
    rw [UdtType.fieldTypes, List.length_map] at hle
    have hlt : ¬ definition.fields.length < items.length := by omega
    simp only [decodeElement, hread, framed, ok_bind, hlt, if_false, pure_eq]
  | tuple =>
    have hlt : ¬ types.length < items.length := by omega
    simp only [decodeElement, hread, framed, ok_bind, hlt, if_false, pure_eq]

theorem decodeValue_structure_iff (ht : t.Composes types value) {b : Bytes} {v : Value} :
    decodeValue t (some b) = .ok v ↔
      ∃ items, WireItems items b ∧ items.length ≤ types.length ∧ v = value items := by
  -- A structure is decoded from its framing, whatever the items are.
  rw [ht.decodeValue_eq]
  constructor
  · exact of_decode_structure ht
  · rintro ⟨items, hitems, hle, rfl⟩
    exact decode_structure ht hitems hle

end

/-! ## Reading one component -/

section

variable {types : List ColumnType} {i : Nat} {type : ColumnType}

theorem readComponent_eq (htype : types[i]? = some type) (components : List (Option Bytes)) :
    readComponent types components i = decodeElement type (componentAt components i) := by
  rw [readComponent, htype]

theorem readComponent_absent (htype : types[i]? = some type) {components : List (Option Bytes)}
    (h : ∀ raw, components[i]? ≠ some (some raw)) :
    readComponent types components i = .ok .null := by
  have hnone : componentAt components i = none := by
    unfold componentAt
    cases hitem : components[i]? with
    | none => rfl
    | some item =>
      cases item with
      | none => rfl
      | some raw => exact absurd hitem (h raw)
  rw [readComponent_eq htype, hnone, decodeElement_none]

theorem readComponent_present (htype : types[i]? = some type) {components : List (Option Bytes)}
    {raw : Bytes} (h : components[i]? = some (some raw)) :
    readComponent types components i = decodeElement type (some raw) := by
  rw [readComponent_eq htype, componentAt, h]
  rfl

theorem readComponent_set {j : Nat} (hij : i ≠ j) (components : List (Option Bytes))
    (raw : Option Bytes) :
    readComponent types (components.set j raw) i = readComponent types components i := by
  simp only [readComponent, componentAt, List.getElem?_set_ne hij.symm]

theorem readComponent_error_iff (htype : types[i]? = some type)
    {components : List (Option Bytes)} {e : ClientError} :
    readComponent types components i = .error e ↔
      ∃ raw, components[i]? = some (some raw) ∧ decodeElement type (some raw) = .error e := by
  constructor
  · intro h
    by_cases hpresent : ∃ raw, components[i]? = some (some raw)
    · obtain ⟨raw, hraw⟩ := hpresent
      rw [readComponent_present htype hraw] at h
      exact ⟨raw, hraw, h⟩
    · rw [readComponent_absent htype fun raw hraw => hpresent ⟨raw, hraw⟩] at h
      cases h
  · rintro ⟨raw, hraw, h⟩
    rw [readComponent_present htype hraw, h]

end

/-! ## Names of fields -/

/-- That the field at a position is the first one with a name, in any case. -/
structure UdtType.FirstNamed (d : UdtType) (name : String) (i : Nat) : Prop where
  named : ∃ field, d.fields[i]? = some field ∧ Text.sameIgnoringCase field.1 name = true
  first : ∀ j < i, ∀ field, d.fields[j]? = some field → Text.sameIgnoringCase field.1 name = false

namespace UdtType

variable {d : UdtType} {name : String}

theorem position?_eq_some_iff {i : Nat} : d.position? name = some i ↔ d.FirstNamed name i := by
  unfold position?
  rw [List.findIdx?_eq_some_iff_getElem]
  constructor
  · rintro ⟨hi, hnamed, hfirst⟩
    refine ⟨⟨d.fields[i], List.getElem?_eq_getElem hi, hnamed⟩, ?_⟩
    intro j hj field hfield
    obtain ⟨hlt, rfl⟩ := List.getElem?_eq_some_iff.mp hfield
    exact Bool.eq_false_of_not_eq_true (hfirst j hj)
  · rintro ⟨⟨field, hfield, hnamed⟩, hfirst⟩
    obtain ⟨hi, rfl⟩ := List.getElem?_eq_some_iff.mp hfield
    refine ⟨hi, hnamed, ?_⟩
    intro j hj
    rw [hfirst j hj _ (List.getElem?_eq_getElem (by omega))]
    exact Bool.false_ne_true

theorem position?_eq_none_iff :
    d.position? name = none ↔ ∀ field ∈ d.fields, Text.sameIgnoringCase field.1 name = false :=
  List.findIdx?_eq_none_iff

theorem FirstNamed.exists_type {i : Nat} (h : d.FirstNamed name i) :
    ∃ type, d.fieldTypes[i]? = some type := by
  obtain ⟨field, hfield, -⟩ := h.named
  refine ⟨field.2, ?_⟩
  rw [fieldTypes, List.getElem?_map, hfield]
  rfl

theorem FirstNamed.field?_eq {i : Nat} (h : d.FirstNamed name i) :
    d.field? name = d.fieldTypes[i]? := by
  -- The type of a field is looked for apart from its position, and found in the same place.
  obtain ⟨field, hfield, hnamed⟩ := h.named
  obtain ⟨hi, rfl⟩ := List.getElem?_eq_some_iff.mp hfield
  have hfind : d.fields.find? (fun field => Text.sameIgnoringCase field.1 name) =
      some d.fields[i] := by
    refine List.find?_eq_some_iff_getElem.mpr ⟨hnamed, i, hi, rfl, ?_⟩
    intro j hj
    rw [h.first j hj _ (List.getElem?_eq_getElem (by omega))]
    rfl
  rw [field?, hfind, fieldTypes, List.getElem?_map, hfield]

theorem field?_eq_some_iff : (∃ type, d.field? name = some type) ↔ ∃ i, d.FirstNamed name i := by
  constructor
  · rintro ⟨type, htype⟩
    obtain ⟨field, hfind, -⟩ := Option.map_eq_some_iff.mp htype
    cases hposition : d.position? name with
    | some i => exact ⟨i, position?_eq_some_iff.mp hposition⟩
    | none =>
      have hnamed := List.find?_some hfind
      rw [position?_eq_none_iff.mp hposition field (List.mem_of_find?_eq_some hfind)] at hnamed
      cases hnamed
  · rintro ⟨i, h⟩
    rw [h.field?_eq]
    exact h.exists_type

theorem FirstNamed.readField_eq {i : Nat} (h : d.FirstNamed name i)
    (components : List (Option Bytes)) :
    d.readField components name = readComponent d.fieldTypes components i := by
  rw [readField, position?_eq_some_iff.mpr h]

theorem readField_eq_noSuchColumn_iff (components : List (Option Bytes)) :
    d.readField components name = .error (.noSuchColumn name) ↔ ¬ ∃ i, d.FirstNamed name i := by
  cases hposition : d.position? name with
  | none =>
    have habsent : ¬ ∃ i, d.FirstNamed name i := by
      rintro ⟨i, h⟩
      rw [position?_eq_some_iff.mpr h] at hposition
      cases hposition
    simp [readField, hposition, habsent]
  | some i =>
    have hfirst := position?_eq_some_iff.mp hposition
    obtain ⟨type, htype⟩ := hfirst.exists_type
    refine iff_of_false ?_ (not_not_intro ⟨i, hfirst⟩)
    rw [hfirst.readField_eq, readComponent_error_iff htype]
    rintro ⟨raw, -, herror⟩
    cases traces_of_error herror

end UdtType

/-- Bytes are accepted as a structure exactly if they are items, and no more of them than components
are declared, whatever the items hold. A declared component is then decoded by its own type from its
own item, or null if that is absent or missing; it fails exactly if its own item is malformed, and
stays the same whatever is put in the place of another one. A name stands for the first field that
has it in any case, for the type of a field as for reading it, and is refused if no field has it. -/
theorem structures_by_framing :
    (∀ t types value, t.Composes types value → ∀ b : Bytes,
      ((∃ v, decodeValue t (some b) = .ok v) ↔
        ∃ items, WireItems items b ∧ items.length ≤ types.length) ∧
      ∀ v, decodeValue t (some b) = .ok v ↔
        ∃ items, WireItems items b ∧ items.length ≤ types.length ∧ v = value items) ∧
    (∀ (types : List ColumnType) (i : Nat) type, types[i]? = some type → ∀ items,
      (∀ raw, items[i]? = some (some raw) →
        readComponent types items i = decodeElement type (some raw)) ∧
      ((∀ raw, items[i]? ≠ some (some raw)) → readComponent types items i = .ok .null) ∧
      (∀ e, readComponent types items i = .error e ↔
        ∃ raw, items[i]? = some (some raw) ∧ decodeElement type (some raw) = .error e) ∧
      ∀ j raw, i ≠ j → readComponent types (items.set j raw) i = readComponent types items i) ∧
    ∀ (d : UdtType) name components,
      ((∃ type, d.field? name = some type) ↔ ∃ i, d.FirstNamed name i) ∧
      (d.readField components name = .error (.noSuchColumn name) ↔ ¬ ∃ i, d.FirstNamed name i) ∧
      ∀ i, d.FirstNamed name i → d.field? name = d.fieldTypes[i]? ∧
        d.readField components name = readComponent d.fieldTypes components i := by
  refine ⟨?framing, ?component, ?named⟩
  case framing =>
    intro t types value ht b
    refine ⟨?_, fun v => decodeValue_structure_iff ht⟩
    constructor
    · rintro ⟨v, hv⟩
      obtain ⟨items, hitems, hle, -⟩ := (decodeValue_structure_iff ht).mp hv
      exact ⟨items, hitems, hle⟩
    · rintro ⟨items, hitems, hle⟩
      exact ⟨value items, (decodeValue_structure_iff ht).mpr ⟨items, hitems, hle, rfl⟩⟩
  case component =>
    intro types i type htype items
    refine ⟨?_, readComponent_absent htype, fun e => readComponent_error_iff htype, ?_⟩
    · intro raw hraw
      exact readComponent_present htype hraw
    · intro j raw hij
      exact readComponent_set hij items raw
  case named =>
    intro d name components
    refine ⟨UdtType.field?_eq_some_iff, UdtType.readField_eq_noSuchColumn_iff components, ?_⟩
    intro i h
    exact ⟨h.field?_eq, h.readField_eq components⟩

/-- A malformed number in front of an absent item, and a third component that is missing. Two fields
have the name. -/
theorem structures_by_framing_two_of_one_name :
    let d : UdtType := ⟨"shop", "address", [("zip", .scalar .int), ("ZIP", .scalar .text),
      ("city", .scalar .text)]⟩
    let b : Bytes := [0, 0, 0, 1, 7, 0xFF, 0xFF, 0xFF, 0xFB]
    let items : List (Option Bytes) := [some [7], none]
    (WireItems items b ∧ decodeValue (.udt d) (some b) = .ok (.udt d items)) ∧
      (readComponent d.fieldTypes items 0 = .error (.decode "int" (.width 4 1)) ∧
        readComponent d.fieldTypes items 1 = .ok .null ∧
        readComponent d.fieldTypes items 2 = .ok .null ∧
        readComponent d.fieldTypes (items.set 0 none) 1 = .ok .null) ∧
      d.FirstNamed "Zip" 0 ∧ d.field? "Zip" = some (.scalar .int) ∧
      d.readField items "Zip" = readComponent d.fieldTypes items 0 ∧
      d.readField items "street" = .error (.noSuchColumn "street") := by
  intro d b items
  obtain ⟨hframing, hcomponent, hname⟩ := structures_by_framing
  have hfirst : d.FirstNamed "Zip" 0 := by
    refine ⟨⟨("zip", .scalar .int), rfl, by decide⟩, ?_⟩
    intro j hj
    omega
  have hstreet : ¬ ∃ i, d.FirstNamed "street" i := by
    rw [← UdtType.field?_eq_some_iff]
    have hnone : d.field? "street" = none := by decide
    rintro ⟨type, htype⟩
    rw [hnone] at htype
    cases htype
  have hpresent : WireItem (some [7]) ([0, 0, 0, 1] ++ [7]) := .present rfl (by decide)
  have hnull : WireItem none [0xFF, 0xFF, 0xFF, 0xFB] := .absent rfl (by decide)
  have hitems : WireItems items b := .cons hpresent (.cons hnull .nil)
  have hnumber := hcomponent d.fieldTypes 0 (.scalar .int) rfl items
  have hsecond := hcomponent d.fieldTypes 1 (.scalar .text) rfl items
  have hthird := hcomponent d.fieldTypes 2 (.scalar .text) rfl items
  have habsent : readComponent d.fieldTypes items 1 = .ok .null :=
    hsecond.2.1 fun raw h => by cases h
  obtain ⟨htype, hread⟩ := (hname d "Zip" items).2.2 0 hfirst
  refine ⟨⟨hitems, ?_⟩, ⟨?_, habsent, ?_, ?_⟩, hfirst, htype, hread, ?_⟩
  · exact ((hframing _ _ _ .udt b).2 _).mpr ⟨items, hitems, by decide, rfl⟩
  · exact (hnumber.2.2.1 _).mpr ⟨[7], rfl, rfl⟩
  · exact hthird.2.1 fun raw h => by cases h
  · rw [hsecond.2.2.2 0 none (by decide), habsent]
  · exact (hname d "street" items).2.1.mpr hstreet

end WideRow
