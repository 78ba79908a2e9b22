import WideRow.Proofs.CustomText
import WideRow.Proofs.RoundTrip

/-! # Encoding what was decoded -/

namespace WideRow

open Framing Result

/-! ## Decoded values fit -/

theorem of_framed {α : Type} {t : ColumnType} {x : Except Malformation α} {a : α}
    (h : framed t x = .ok a) : x = .ok a := by
  cases x with
  | error e => cases h
  | ok b =>
    cases h
    rfl

/-- What was decoded fits and is built. -/
def Decoded (t : ColumnType) (v : Value) : Prop :=
  FitsElement t v ∧ v.Built

theorem of_holds {kind : ScalarKind} {v : Value} (h : kind.Holds v) : Decoded (.scalar kind) v :=
  ⟨.scalar h, .plain (components_of_holds h).1⟩

theorem decoded_list {element : ColumnType} {items : List Value} (h : ∀ v ∈ items, Decoded element v) :
    Decoded (.list element) (.list items) :=
  ⟨.list fun v hv => (h v hv).1, .list fun v hv => (h v hv).2⟩

theorem decoded_set {element : ColumnType} {items : List Value} (h : ∀ v ∈ items, Decoded element v) :
    Decoded (.set element) (.setOf items) :=
  ⟨fitsElement_setOf fun v hv => (h v hv).1, .set fun v hv => (h v hv).2⟩

theorem decoded_map {key value : ColumnType} {entries : List (Value × Value)}
    (h : ∀ e ∈ entries, Decoded key e.1 ∧ Decoded value e.2) :
    Decoded (.map key value) (.mapOf entries) :=
  ⟨fitsElement_mapOf fun e he => ⟨(h e he).1.1, (h e he).2.1⟩,
    .map (fun e he => (h e he).1.2) fun e he => (h e he).2.2⟩

/-! ## Inversions -/

theorem of_decode_list {element : ColumnType} {b : Bytes} {v : Value}
    (h : decodeElement (.list element) (some b) = .ok v) :
    ∃ raws items, readCollection 1 b = .ok raws ∧
      List.Forall₂ (fun x raw => decodeElement element raw = .ok x) items raws ∧ v = .list items := by
  rw [decodeElement] at h
  obtain ⟨raws, hraws, h⟩ := bind_eq_ok.mp h
  obtain ⟨items, hitems, h⟩ := bind_eq_ok.mp h
  cases h
  exact ⟨raws, items, of_framed hraws, decodeItems_iff.mp hitems, rfl⟩

theorem of_decode_set {element : ColumnType} {b : Bytes} {v : Value}
    (h : decodeElement (.set element) (some b) = .ok v) :
    ∃ raws items, readCollection 1 b = .ok raws ∧
      List.Forall₂ (fun x raw => decodeElement element raw = .ok x) items raws ∧ v = .setOf items := by
  rw [decodeElement] at h
  obtain ⟨raws, hraws, h⟩ := bind_eq_ok.mp h
  obtain ⟨items, hitems, h⟩ := bind_eq_ok.mp h
  cases h
  exact ⟨raws, items, of_framed hraws, decodeItems_iff.mp hitems, rfl⟩

theorem of_decode_map {key value : ColumnType} {b : Bytes} {v : Value}
    (h : decodeElement (.map key value) (some b) = .ok v) :
    ∃ pairs entries, readCollection 2 b = .ok (byTurns pairs) ∧
      List.Forall₂ (fun e p => decodeElement key p.1 = .ok e.1 ∧ decodeElement value p.2 = .ok e.2)
        entries pairs ∧ v = .mapOf entries := by
  rw [decodeElement] at h
  obtain ⟨raws, hraws, h⟩ := bind_eq_ok.mp h
  obtain ⟨entries, hentries, h⟩ := bind_eq_ok.mp h
  cases h
  obtain ⟨⟨count, hcount⟩, -⟩ := of_readCollection (of_framed hraws)
  obtain ⟨pairs, rfl⟩ := exists_byTurns hcount
  exact ⟨pairs, entries, of_framed hraws, decodeEntries_iff.mp hentries, rfl⟩

theorem of_decode_udt {definition : UdtType} {b : Bytes} {v : Value}
    (h : decodeElement (.udt definition) (some b) = .ok v) :
    ∃ components, readStructure b = .ok components ∧
      components.length ≤ definition.fields.length ∧ v = .udt definition components := by
  rw [decodeElement] at h
  obtain ⟨components, hcomponents, h⟩ := bind_eq_ok.mp h
  by_cases hlt : definition.fields.length < components.length
  · simp only [hlt, if_true] at h
    cases h
  · simp only [hlt, if_false] at h
    cases h
    exact ⟨components, of_framed hcomponents, by omega, rfl⟩

theorem of_decode_tuple {types : List ColumnType} {b : Bytes} {v : Value}
    (h : decodeElement (.tuple types) (some b) = .ok v) :
    ∃ components, readStructure b = .ok components ∧ components.length ≤ types.length ∧
      v = .tuple types components := by
  rw [decodeElement] at h
  obtain ⟨components, hcomponents, h⟩ := bind_eq_ok.mp h
  by_cases hlt : types.length < components.length
  · simp only [hlt, if_true] at h
    cases h
  · simp only [hlt, if_false] at h
    cases h
    exact ⟨components, of_framed hcomponents, by omega, rfl⟩

/-- Induction over what was decoded, with the raw items that the items were decoded from. -/
theorem decodeElement_induction {motive : ColumnType → Option Bytes → Value → Prop}
    (null : ∀ t, motive t none .null)
    (scalar : ∀ kind b v, Scalar.decode kind b = .ok v → motive (.scalar kind) (some b) v)
    (custom : ∀ className b, motive (.custom className) (some b) (.text (CustomText.clean b)))
    (list : ∀ element b raws items, readCollection 1 b = .ok raws →
      List.Forall₂ (fun x raw => motive element raw x) items raws →
        motive (.list element) (some b) (.list items))
    (set : ∀ element b raws items, readCollection 1 b = .ok raws →
      List.Forall₂ (fun x raw => motive element raw x) items raws →
        motive (.set element) (some b) (.setOf items))
    (map : ∀ key value b pairs entries, readCollection 2 b = .ok (byTurns pairs) →
      List.Forall₂ (fun e p => motive key p.1 e.1 ∧ motive value p.2 e.2) entries pairs →
        motive (.map key value) (some b) (.mapOf entries))
    (udt : ∀ definition b components, readStructure b = .ok components →
      components.length ≤ definition.fields.length →
        motive (.udt definition) (some b) (.udt definition components))
    (tuple : ∀ types b components, readStructure b = .ok components →
      components.length ≤ types.length → motive (.tuple types) (some b) (.tuple types components))
    {t : ColumnType} {raw : Option Bytes} {v : Value} (h : decodeElement t raw = .ok v) :
    motive t raw v := by
  induction t using ColumnType.element_induction generalizing raw v <;> cases raw
  -- Nothing is null for every type.
  case scalar.none | custom.none | list.none | set.none | map.none | udt.none | tuple.none =>
    rw [decodeElement_none] at h
    cases h
    exact null _
  case scalar.some kind b => exact scalar kind b v h
  case custom.some className b =>
    cases h
    exact custom className b
  case list.some element ih b =>
    obtain ⟨raws, items, hread, hitems, rfl⟩ := of_decode_list h
    exact list element b raws items hread (hitems.imp fun _ _ => ih)
  case set.some element ih b =>
    obtain ⟨raws, items, hread, hitems, rfl⟩ := of_decode_set h
    exact set element b raws items hread (hitems.imp fun _ _ => ih)
  case map.some key value ihk ihv b =>
    obtain ⟨pairs, entries, hread, hentries, rfl⟩ := of_decode_map h
    exact map key value b pairs entries hread (hentries.imp fun _ _ he => ⟨ihk he.1, ihv he.2⟩)
  case udt.some definition b =>
    obtain ⟨components, hread, hle, rfl⟩ := of_decode_udt h
    exact udt definition b components hread hle
  case tuple.some types b =>
    obtain ⟨components, hread, hle, rfl⟩ := of_decode_tuple h
    exact tuple types b components hread hle

theorem decoded_of_decodeElement {t : ColumnType} {raw : Option Bytes} {v : Value}
    (h : decodeElement t raw = .ok v) : Decoded t v := by
  refine decodeElement_induction (motive := fun t _ v => Decoded t v) ?null ?scalar ?custom ?list
    ?set ?map ?udt ?tuple h
  case null =>
    intro t
    exact ⟨.null, .plain rfl⟩
  case scalar =>
    intro kind b v hv
    exact of_holds (Scalar.rewrites_of_decode hv).1
  case custom =>
    intro className b
    exact ⟨.custom (CustomText.clean_encode_clean b), .plain rfl⟩
  case list =>
    intro element b raws items _ hitems
    refine decoded_list fun x hx => ?_
    obtain ⟨raw, -, hx⟩ := exists_right hitems hx
    exact hx
  case set =>
    intro element b raws items _ hitems
    refine decoded_set fun x hx => ?_
    obtain ⟨raw, -, hx⟩ := exists_right hitems hx
    exact hx
  case map =>
    intro key value b pairs entries _ hentries
    refine decoded_map fun e he => ?_
    obtain ⟨p, -, he⟩ := exists_right hentries he
    exact he
  case udt =>
    intro definition b components _ hle
    exact ⟨.udt hle, .plain rfl⟩
  case tuple =>
    intro types b components _ hle
    exact ⟨.tuple hle, .plain rfl⟩

/-! ## Sizes -/

/-- The value is written, in a frame of no more than twice the length. -/
def Grows (f : Value → Result (Option Bytes)) (v : Value) (raw : Option Bytes) : Prop :=
  ∃ item, f v = .ok item ∧ (frame item).length ≤ 2 * (frame raw).length

/-- The length of the frame that `f` writes for the value. -/
def framedLength (f : Value → Result (Option Bytes)) (v : Value) : Nat :=
  match f v with
  | .ok item => (frame item).length
  | .error _ => 0

section

variable {f fk fv : Value → Result (Option Bytes)}

theorem framedLength_of_writes {v : Value} {item : Option Bytes} (h : Writes f v item) :
    framedLength f v = (frame item).length := by
  rw [framedLength, h.1]

theorem Grows.length_le {v : Value} {raw : Option Bytes} (h : Grows f v raw) :
    framedLength f v ≤ 2 * (frame raw).length := by
  obtain ⟨item, hitem, hl⟩ := h
  rw [framedLength, hitem]
  exact hl

theorem Grows.writes {v : Value} {raw : Option Bytes} (h : Grows f v raw)
    (hraw : (frame raw).length < 1073741824) : ∃ item, Writes f v item := by
  obtain ⟨item, hitem, hl⟩ := h
  refine ⟨item, hitem, ?_⟩
  intro b hb
  rw [hb, length_frame, Option.elim_some] at hl
  unfold maxCount
  omega

theorem length_frame_le {raw : Option Bytes} {raws : List (Option Bytes)} (h : raw ∈ raws) :
    (frame raw).length ≤ (frames raws).length := by
  induction raws with
  | nil => cases h
  | cons first raws ih =>
    rw [length_frames_cons]
    rcases List.mem_cons.mp h with rfl | h
    · omega
    · have := ih h
      omega

theorem encodeItems_length {vs : List Value} (h : ∀ v ∈ vs, ∃ item, Writes f v item) :
    ∃ b, encodeItems f vs = .ok b ∧ b.length = (vs.map (framedLength f)).sum ∧
      4 * vs.length ≤ b.length := by
  have hitems : ∃ items, List.Forall₂ (Writes f) vs items := by
    induction vs with
    | nil => exact ⟨[], .nil⟩
    | cons v vs ih =>
      rw [List.forall_mem_cons] at h
      obtain ⟨item, hitem⟩ := h.1
      obtain ⟨items, hitems⟩ := ih h.2
      exact ⟨item :: items, .cons hitem hitems⟩
  obtain ⟨items, hitems⟩ := hitems
  refine ⟨frames items, encodeItems_ok hitems, ?_, ?_⟩
  · induction hitems with
    | nil => rfl
    | cons hv _ ih =>
      rw [List.forall_mem_cons] at h
      rw [length_frames_cons, List.map_cons, List.sum_cons, framedLength_of_writes hv, ih h.2]
  · rw [hitems.length_eq]
    exact length_frames_ge items

theorem encodeEntries_length {entries : List (Value × Value)}
    (h : ∀ e ∈ entries, (∃ item, Writes fk e.1 item) ∧ ∃ item, Writes fv e.2 item) :
    ∃ b, encodeEntries fk fv entries = .ok b ∧
      b.length = (entries.map fun e => framedLength fk e.1 + framedLength fv e.2).sum ∧
      4 * entries.length ≤ b.length := by
  have hpairs : ∃ pairs, List.Forall₂ (WritesEntry fk fv) entries pairs := by
    induction entries with
    | nil => exact ⟨[], .nil⟩
    | cons e entries ih =>
      rw [List.forall_mem_cons] at h
      obtain ⟨⟨key, hkey⟩, value, hvalue⟩ := h.1
      obtain ⟨pairs, hpairs⟩ := ih h.2
      exact ⟨(key, value) :: pairs, .cons ⟨hkey, hvalue⟩ hpairs⟩
  obtain ⟨pairs, hpairs⟩ := hpairs
  refine ⟨frames (byTurns pairs), encodeEntries_ok hpairs, ?_, ?_⟩
  · induction hpairs with
    | nil => rfl
    | cons hv _ ih =>
      rw [List.forall_mem_cons] at h
      rw [byTurns_cons, length_frames_cons, length_frames_cons, List.map_cons, List.sum_cons,
        framedLength_of_writes hv.1, framedLength_of_writes hv.2, ih h.2]
      omega
  · have := length_frames_ge (byTurns pairs)
    rw [length_byTurns, ← hpairs.length_eq] at this
    omega

theorem lt_of_frame {b : Bytes} (h : (frame (some b)).length < 1073741828) :
    b.length < 1073741824 := by
  rw [length_frame, Option.elim_some] at h
  omega

theorem counted_grows {n : Nat} {b body : Bytes} (hb : b.length < 1073741824)
    (hcount : 4 * n ≤ body.length) (hbody : body.length ≤ 2 * (b.length - 4)) :
    ∃ item, counted n (.ok body) = .ok item ∧
      (frame item).length ≤ 2 * (frame (some b)).length := by
  refine ⟨some (Bytes.ofNat 4 n ++ body), counted_ok ?_, ?_⟩
  · unfold maxCount
    omega
  · rw [length_frame, length_frame, Option.elim_some, Option.elim_some, List.length_append,
      Bytes.length_ofNat]
    omega

theorem items_grow {b : Bytes} {raws : List (Option Bytes)} {items kept : List Value}
    (hb : b.length < 1073741824) (hread : (frames raws).length = b.length - 4)
    (hgrows : List.Forall₂ (Grows f) items raws) (hkept : ∀ v ∈ kept, v ∈ items)
    (hsum : (kept.map (framedLength f)).sum ≤ (items.map (framedLength f)).sum) :
    ∃ item, counted kept.length (encodeItems f kept) = .ok item ∧
      (frame item).length ≤ 2 * (frame (some b)).length := by
  have hitems : (items.map (framedLength f)).sum ≤ 2 * (frames raws).length := by
    clear hread hkept hsum
    induction hgrows with
    | nil => exact Nat.zero_le _
    | cons hv _ ih =>
      have := hv.length_le
      rw [List.map_cons, List.sum_cons, length_frames_cons]
      omega
  have hwrites : ∀ v ∈ kept, ∃ item, Writes f v item := by
    intro v hv
    obtain ⟨raw, hraw, hg⟩ := exists_right hgrows (hkept v hv)
    have := length_frame_le hraw
    exact hg.writes (by omega)
  obtain ⟨body, hbody, hl, hcount⟩ := encodeItems_length hwrites
  rw [hbody]
  exact counted_grows hb hcount (by omega)

theorem entries_grow {b : Bytes} {pairs : List (Option Bytes × Option Bytes)}
    {entries kept : List (Value × Value)} (hb : b.length < 1073741824)
    (hread : (frames (byTurns pairs)).length = b.length - 4)
    (hgrows : List.Forall₂ (fun e p => Grows fk e.1 p.1 ∧ Grows fv e.2 p.2) entries pairs)
    (hkept : ∀ {P Q : Value → Prop}, (∀ e ∈ entries, P e.1 ∧ Q e.2) → ∀ e ∈ kept, P e.1 ∧ Q e.2)
    (hsum : (kept.map fun e => framedLength fk e.1 + framedLength fv e.2).sum ≤
      (entries.map fun e => framedLength fk e.1 + framedLength fv e.2).sum) :
    ∃ item, counted kept.length (encodeEntries fk fv kept) = .ok item ∧
      (frame item).length ≤ 2 * (frame (some b)).length := by
  have hentries : (entries.map fun e => framedLength fk e.1 + framedLength fv e.2).sum ≤
      2 * (frames (byTurns pairs)).length := by
    clear hread hkept hsum
    induction hgrows with
    | nil => exact Nat.zero_le _
    | cons hv _ ih =>
      have := hv.1.length_le
      have := hv.2.length_le
      rw [List.map_cons, List.sum_cons, byTurns_cons, length_frames_cons, length_frames_cons]
      omega
  have hwrites : ∀ e ∈ kept, (∃ item, Writes fk e.1 item) ∧ ∃ item, Writes fv e.2 item := by
    refine hkept (P := fun k => ∃ item, Writes fk k item) (Q := fun v => ∃ item, Writes fv v item) ?_
    intro e he
    obtain ⟨p, hp, hk, hv⟩ := exists_right hgrows he
    have := length_frame_le (mem_byTurns.mpr ⟨p, hp, .inl rfl⟩)
    have := length_frame_le (mem_byTurns.mpr ⟨p, hp, .inr rfl⟩)
    exact ⟨hk.writes (by omega), hv.writes (by omega)⟩
  obtain ⟨body, hbody, hl, hcount⟩ := encodeEntries_length hwrites
  rw [hbody]
  exact counted_grows hb hcount (by omega)

end

theorem grows_of_length {t : ColumnType} {v : Value} {b out : Bytes}
    (h : encodeValue t v = .ok (some out)) (hl : out.length ≤ b.length) :
    Grows (encodeValue t) v (some b) := by
  refine ⟨some out, h, ?_⟩
  rw [length_frame, length_frame, Option.elim_some, Option.elim_some]
  omega

theorem grows_of_components {t : ColumnType} {v : Value} {b : Bytes}
    (hencode : encodeValue t v = some <$> putItems v.components)
    (h : readStructure b = .ok v.components) : Grows (encodeValue t) v (some b) := by
  obtain ⟨hshort, hl⟩ := of_readStructure h
  have hout : encodeValue t v = .ok (some (frames v.components)) := by
    rw [hencode, putItems_ok hshort, map_ok]
  exact grows_of_length hout (by omega)

theorem grows_each {element : ColumnType} {b : Bytes} {raws : List (Option Bytes)}
    {items : List Value} (hb : b.length < 1073741824) (hframes : (frames raws).length = b.length - 4)
    (h : List.Forall₂ (fun x raw => (frame raw).length < 1073741828 →
      Grows (encodeValue element) x raw) items raws) :
    List.Forall₂ (Grows (encodeValue element)) items raws := by
  refine imp_of_mem h fun x raw hraw hx => hx ?_
  have := length_frame_le hraw
  omega

theorem grows_of_decodeElement {t : ColumnType} {raw : Option Bytes} {v : Value}
    (h : decodeElement t raw = .ok v) (hl : (frame raw).length < 1073741828) :
    Grows (encodeValue t) v raw := by
  -- An empty collection grows from nothing to its count, and nothing else grows.
  revert hl
  refine decodeElement_induction
    (motive := fun t raw v => (frame raw).length < 1073741828 → Grows (encodeValue t) v raw)
    ?null ?scalar ?custom ?list ?set ?map ?udt ?tuple h
  case null =>
    intro t _
    exact ⟨none, encodeValue_null t, by omega⟩
  case scalar =>
    intro kind b v hv _
    obtain ⟨-, out, hout, hle⟩ := Scalar.rewrites_of_decode hv
    exact grows_of_length hout hle
  case custom =>
    intro className b _
    exact grows_of_length rfl (CustomText.length_clean_le b)
  case list =>
    intro element b raws items hread hitems hl
    have hb := lt_of_frame hl
    have hframes := (of_readCollection hread).2
    exact items_grow hb hframes (grows_each hb hframes hitems) (fun _ => id) (Nat.le_refl _)
  case set =>
    intro element b raws items hread hitems hl
    have hb := lt_of_frame hl
    have hframes := (of_readCollection hread).2
    -- An item that is there twice is written once.
    exact items_grow hb hframes (grows_each hb hframes hitems)
      (fun _ => ValueSet.mem_of_mem_ofList) (ValueSet.sum_ofList_le _ items)
  case map =>
    intro key value b pairs entries hread hentries hl
    have hb := lt_of_frame hl
    have hframes := (of_readCollection hread).2
    have hgrows : List.Forall₂ (fun e p => Grows (encodeValue key) e.1 p.1 ∧
        Grows (encodeValue value) e.2 p.2) entries pairs := by
      refine imp_of_mem hentries fun e p hp hkv => ?_
      have := length_frame_le (mem_byTurns.mpr ⟨p, hp, .inl rfl⟩)
      have := length_frame_le (mem_byTurns.mpr ⟨p, hp, .inr rfl⟩)
      exact ⟨hkv.1 (by omega), hkv.2 (by omega)⟩
    exact entries_grow hb hframes hgrows ValueMap.forall_ofList
      (ValueMap.sum_ofList_le _ _ entries)
  case udt =>
    intro definition b components hread _ _
    exact grows_of_components rfl hread
  case tuple =>
    intro types b components hread _ _
    exact grows_of_components rfl hread

/-! ## Columns -/

theorem decodeElement_of_encodeValue {t : ColumnType} {v : Value} {out : Option Bytes}
    (hv : Decoded t v) (hout : encodeValue t v = .ok out) : decodeElement t out = .ok v := by
  rcases roundTrips_element hv.1 hv.2 with ⟨raw, hraw, hdecode, -⟩ | ⟨n, -, -, herr⟩
  · rw [hout] at hraw
    cases hraw
    exact hdecode
  · rw [hout] at herr
    cases herr

theorem decodeValue_eq {t : ColumnType} (h : ∀ className, t ≠ .custom className)
    (raw : Option Bytes) : decodeValue t raw = decodeElement t raw := by
  cases t with
  | custom className => exact absurd rfl (h className)
  | _ => rfl

/-- Encoding what was decoded succeeds with little more than the bytes read, loses nothing of the
value, and is its own normal form. -/
theorem encodeValue_decodeValue {t : ColumnType} {b : Bytes} {v : Value}
    (hl : b.length < 2 ^ 30) (h : decodeValue t (some b) = .ok v) :
    ∃ out, encodeValue t v = .ok out ∧ (∀ c, out = some c → c.length ≤ 2 * b.length + 4) ∧
      decodeValue t out = .ok v ∧ (decodeValue t out >>= encodeValue t) = .ok out := by
  suffices hs : ∃ out, encodeValue t v = .ok out ∧
      (∀ c, out = some c → c.length ≤ 2 * b.length + 4) ∧ decodeValue t out = .ok v by
    obtain ⟨out, hout, hsize, hdecode⟩ := hs
    exact ⟨out, hout, hsize, hdecode, by rw [hdecode, ok_bind, hout]⟩
  by_cases hcustom : ∃ className, t = .custom className
  · obtain ⟨className, rfl⟩ := hcustom
    cases h
    refine ⟨none, encodeValue_null _, ?_, rfl⟩
    intro c hc
    cases hc
  · have hcolumn := decodeValue_eq fun className ht => hcustom ⟨className, ht⟩
    rw [hcolumn] at h
    have hframe : (frame (some b)).length < 1073741828 := by
      rw [length_frame, Option.elim_some]
      omega
    obtain ⟨out, hout, hgrow⟩ := grows_of_decodeElement h hframe
    refine ⟨out, hout, ?_, ?_⟩
    · rintro c rfl
      rw [length_frame, length_frame, Option.elim_some, Option.elim_some] at hgrow
      omega
    · rw [hcolumn]
      exact decodeElement_of_encodeValue (decoded_of_decodeElement h) hout

/-- An inner set without a count, an item with a negative length and a set with one item twice. -/
theorem encodeValue_decodeValue_list :
    let t := ColumnType.list (.set (.scalar .boolean))
    let b : Bytes := [0, 0, 0, 3, 0, 0, 0, 0, 0xFF, 0xFF, 0xFF, 0xFB, 0, 0, 0, 14, 0, 0, 0, 2,
      0, 0, 0, 1, 7, 0, 0, 0, 1, 9]
    let v := Value.list [.setOf [], .null, .setOf [.boolean true, .boolean true]]
    (b.length < 2 ^ 30 ∧ decodeValue t (some b) = .ok v) ∧
      ∃ out, encodeValue t v = .ok out ∧ (∀ c, out = some c → c.length ≤ 2 * b.length + 4) ∧
        decodeValue t out = .ok v ∧ (decodeValue t out >>= encodeValue t) = .ok out := by
  intro t b v
  have hl : b.length < 2 ^ 30 := by decide
  have h : decodeValue t (some b) = .ok v := rfl
  exact ⟨⟨hl, h⟩, encodeValue_decodeValue hl h⟩

end WideRow
