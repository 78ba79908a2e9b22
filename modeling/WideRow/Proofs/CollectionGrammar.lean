import WideRow.Proofs.Lookup
import WideRow.Proofs.Rewrite

/-!
# Collections by their grammar

What a list, a set or a map is decoded to follows from the items that the grammar of its body
derives, and nothing else is decoded.
-/

namespace WideRow

open Framing Result

/-! ## Decoding -/

theorem decodeElement_list_iff {element : ColumnType} {b : Bytes} {v : Value} :
    decodeElement (.list element) (some b) = .ok v ↔
      ∃ items vs, WireBody 1 items b ∧
        List.Forall₂ (fun x item => decodeElement element item = .ok x) vs items ∧ v = .list vs := by
  constructor
  · intro h
    obtain ⟨items, vs, hread, hvs, rfl⟩ := of_decode_list h
    exact ⟨items, vs, readCollection_eq_ok_iff.mp hread, hvs, rfl⟩
  · rintro ⟨items, vs, hbody, hvs, rfl⟩
    rw [decodeElement, readCollection_eq_ok_iff.mpr hbody]
    simp only [framed, ok_bind, decodeItems_iff.mpr hvs, pure_eq]

theorem decodeElement_set_iff {element : ColumnType} {b : Bytes} {v : Value} :
    decodeElement (.set element) (some b) = .ok v ↔
      ∃ items vs, WireBody 1 items b ∧
        List.Forall₂ (fun x item => decodeElement element item = .ok x) vs items ∧
        v = .set (ListedSet.ofList vs) := by
  constructor
  · intro h
    obtain ⟨items, vs, hread, hvs, rfl⟩ := of_decode_set h
    exact ⟨items, vs, readCollection_eq_ok_iff.mp hread, hvs, Value.setOf_eq vs⟩
  · rintro ⟨items, vs, hbody, hvs, rfl⟩
    rw [decodeElement, readCollection_eq_ok_iff.mpr hbody]
    simp only [framed, ok_bind, decodeItems_iff.mpr hvs, pure_eq, Value.setOf_eq]

theorem decodeElement_map_iff {key value : ColumnType} {b : Bytes} {v : Value} :
    decodeElement (.map key value) (some b) = .ok v ↔
      ∃ pairs entries, WireBody 2 (byTurns pairs) b ∧
        List.Forall₂ (fun e p => decodeElement key p.1 = .ok e.1 ∧ decodeElement value p.2 = .ok e.2)
          entries pairs ∧
        v = .map (ListedMap.ofList entries) := by
  constructor
  · intro h
    obtain ⟨pairs, entries, hread, hentries, rfl⟩ := of_decode_map h
    exact ⟨pairs, entries, readCollection_eq_ok_iff.mp hread, hentries, Value.mapOf_eq entries⟩
  · rintro ⟨pairs, entries, hbody, hentries, rfl⟩
    rw [decodeElement, readCollection_eq_ok_iff.mpr hbody]
    simp only [framed, ok_bind, decodeEntries_iff.mpr hentries, pure_eq, Value.mapOf_eq]

/-- Whatever the bytes, reading accepts exactly the bodies of the grammar. A list has the decoded
items in order, a set those that are not equal to an earlier one, a map the last value of each key in
the place of the first. The guard lets every well-framed body pass with room for its items, and makes
room for no more than a quarter of the bytes, which reading fills exactly. -/
theorem collections_by_grammar (b : Bytes) :
    (∀ perEntry items, readCollection perEntry b = .ok items ↔ WireBody perEntry items b) ∧
    (∀ element v, decodeValue (.list element) (some b) = .ok v ↔
      ∃ items vs, WireBody 1 items b ∧
        List.Forall₂ (fun x item => decodeElement element item = .ok x) vs items ∧ v = .list vs) ∧
    (∀ element v, decodeValue (.set element) (some b) = .ok v ↔
      ∃ items vs, WireBody 1 items b ∧
        List.Forall₂ (fun x item => decodeElement element item = .ok x) vs items ∧
        v = .set (ListedSet.ofList vs)) ∧
    (∀ key value v, decodeValue (.map key value) (some b) = .ok v ↔
      ∃ pairs entries, WireBody 2 (byTurns pairs) b ∧
        List.Forall₂ (fun e p => decodeElement key p.1 = .ok e.1 ∧ decodeElement value p.2 = .ok e.2)
          entries pairs ∧
        v = .map (ListedMap.ofList entries)) ∧
    (∀ perEntry items, WireBody perEntry items b → b ≠ [] →
      ∃ rest, announce perEntry b = .ok (items.length, rest)) ∧
    (∀ perEntry room rest, announce perEntry b = .ok (room, rest) →
      room ≤ b.length / 4 ∧
        ∀ items more, takeItems room rest = .ok (items, more) → items.length = room) := by
  refine ⟨?framing, ?list, ?set, ?map, ?guard, ?room⟩
  case framing =>
    intro perEntry items
    exact readCollection_eq_ok_iff
  case list =>
    intro element v
    exact decodeElement_list_iff
  case set =>
    intro element v
    exact decodeElement_set_iff
  case map =>
    intro key value v
    exact decodeElement_map_iff
  case guard =>
    intro perEntry items hbody hne
    obtain ⟨rest, hannounce, -⟩ := hbody.announce hne
    exact ⟨rest, hannounce⟩
  case room =>
    intro perEntry room rest hannounce
    refine ⟨room_le hannounce, ?_⟩
    intro items more htake
    exact (wire_of_takeItems htake).1

/-- One key twice, and an absent value under a length of -5. -/
theorem collections_by_grammar_one_key_twice :
    let b : Bytes := [0, 0, 0, 2, 0, 0, 0, 1, 7, 0xFF, 0xFF, 0xFF, 0xFB, 0, 0, 0, 1, 9, 0, 0, 0, 1, 0]
    let rest := b.drop 4
    (WireBody 2 [some [7], none, some [9], some [0]] b ∧ b ≠ [] ∧
      announce 2 b = .ok (4, rest) ∧ takeItems 4 rest = .ok ([some [7], none, some [9], some [0]], [])) ∧
    decodeValue (.map (.scalar .boolean) (.scalar .boolean)) (some b) =
      .ok (.map [(.boolean true, .boolean false)]) ∧
    4 ≤ b.length / 4 ∧ ∃ rest, announce 2 b = .ok (4, rest) := by
  intro b rest
  obtain ⟨hframing, -, -, hmap, hguard, hroom⟩ := collections_by_grammar b
  have hbody : WireBody 2 [some [7], none, some [9], some [0]] b := (hframing 2 _).mp rfl
  have hannounce : announce 2 b = .ok (4, rest) := rfl
  have htake : takeItems 4 rest = .ok ([some [7], none, some [9], some [0]], []) := rfl
  have hb : b ≠ [] := List.cons_ne_nil _ _
  refine ⟨⟨hbody, hb, hannounce, htake⟩, ?_, (hroom 2 4 rest hannounce).1, hguard 2 _ hbody hb⟩
  refine (hmap _ _ _).mpr ⟨[(some [7], none), (some [9], some [0])],
    [(.boolean true, .null), (.boolean true, .boolean false)], hbody, ?_, rfl⟩
  exact .cons ⟨rfl, rfl⟩ (.cons ⟨rfl, rfl⟩ .nil)

end WideRow
