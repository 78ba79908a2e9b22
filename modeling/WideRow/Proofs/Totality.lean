import WideRow.Proofs.Components
import WideRow.Proofs.DecodeInPlace
import WideRow.Proofs.Lookup

/-!
# Decoding any bytes

Whatever bytes come in, decoding gives a value or says what is malformed. Nothing is read outside
the input, and a value of a kind with one width has that width on its way in and on its way out.
-/

namespace WideRow

open Framing Result

/-! ## Answers -/

/-- An error of decoding, whose cause is again one where there is a cause. -/
inductive ClientError.Malformed : ClientError → Prop where
  | decode {typeName : String} {malformation : Malformation} :
      Malformed (.decode typeName malformation)
  | element {typeName : String} {i : Nat} {cause : ClientError} (inner : Malformed cause) :
      Malformed (.element typeName i cause)

theorem ClientError.Malformed.isDecode {e : ClientError} (h : e.Malformed) : e.isDecode = true := by
  cases h <;> rfl

/-- A value, or an error of decoding and no other error. -/
def Answers (r : Result Value) : Prop :=
  (∃ v, r = .ok v) ∨ ∃ e, r = .error e ∧ e.isDecode = true ∧ e.Malformed

theorem Traces.malformed {t : ColumnType} {raw : Option Bytes} {e : ClientError}
    (h : Traces t raw e) : e.Malformed := by
  induction h with
  | itself => exact .decode
  | item _ _ _ _ _ ih => exact .element ih

theorem answers_decodeElement (t : ColumnType) (raw : Option Bytes) :
    Answers (decodeElement t raw) := by
  cases h : decodeElement t raw with
  | ok v => exact .inl ⟨v, rfl⟩
  | error e =>
    have hmalformed := (traces_of_error h).malformed
    exact .inr ⟨e, rfl, hmalformed.isDecode, hmalformed⟩

theorem answers_decodeValue (t : ColumnType) (raw : Option Bytes) :
    Answers (decodeValue t raw) := by
  cases t with
  | custom className => exact .inl ⟨.null, rfl⟩
  | _ => exact answers_decodeElement _ raw

theorem answers_readComponent {types : List ColumnType} {i : Nat} (hi : i < types.length)
    (components : List (Option Bytes)) : Answers (readComponent types components i) := by
  rw [readComponent_eq (List.getElem?_eq_getElem hi)]
  exact answers_decodeElement _ _

theorem answers_readField {d : UdtType} {name : String} {i : Nat} (h : d.FirstNamed name i)
    (components : List (Option Bytes)) : Answers (d.readField components name) := by
  obtain ⟨type, htype⟩ := h.exists_type
  rw [h.readField_eq]
  exact answers_readComponent (List.getElem?_eq_some_iff.mp htype).1 components

/-! ## Positions in an index -/

theorem ValueIndex.Lists.lt_length {digest : Digest} {index : ValueIndex} {keys : List Value}
    (h : index.Lists digest keys) {bucket : UInt64} {i : Nat}
    (hi : i ∈ index.buckets.getD bucket #[]) : i < keys.length := by
  rw [← Array.mem_toList_iff, h bucket] at hi
  simpa using List.lt_add_of_mem_findIdxs i hi

theorem ValueSet.lt_size (digest : Digest) (vs : List Value) {bucket : UInt64} {i : Nat}
    (hi : i ∈ (ofList digest vs).index.buckets.getD bucket #[]) : i < (ofList digest vs).size := by
  have h := (indexed_ofList vs).lt_length hi
  rwa [toList, Array.length_toList] at h

theorem ValueMap.lt_size (digest : Digest) (entries : List (Value × Value)) {bucket : UInt64}
    {i : Nat} (hi : i ∈ (ofList digest entries).index.buckets.getD bucket #[]) :
    i < (ofList digest entries).size := by
  have h := (indexed_ofList entries).lt_length hi
  rwa [keys, List.length_map, toList, Array.length_toList] at h

/-! ## Widths -/

namespace Scalar

variable {kind : ScalarKind} {width : Nat}

theorem fixed_of_length_ne {typeName : String} {b : Bytes} (h : b.length ≠ width) :
    fixed width typeName b = .error (.decode typeName (.width width b.length)) := if_neg h

theorem decode_of_length_ne (hwidth : kind.fixedWidth = some width) {b : Bytes}
    (h : b.length ≠ width) :
    decode kind b = .error (.decode kind.name (.width width b.length)) := by
  cases kind <;> cases hwidth
  all_goals simp only [decode, decodeBoolean, decodeTinyint, decodeSmallint, decodeInt, decodeInt64,
    decodeFloat, decodeDouble, decodeUuid, decodeDate, decodeTime, decodeTimestamp,
    fixed_of_length_ne h, error_bind, map_error, ScalarKind.name]

theorem length_of_encode? (hwidth : kind.fixedWidth = some width) {v : Value} {b : Bytes}
    (h : encode? kind v = some b) : b.length = width := by
  unfold encode? at h
  split at h <;> simp only [Option.some.injEq, reduceCtorEq] at h <;> subst h <;>
    simp only [ScalarKind.fixedWidth, Option.some.injEq, reduceCtorEq] at hwidth <;>
    simp [Uuid.toBytes, ← hwidth]

end Scalar

theorem ColumnType.exists_scalar {t : ColumnType} {width : Nat}
    (h : t.kind.fixedWidth = some width) :
    ∃ kind, t = .scalar kind ∧ kind.fixedWidth = some width := by
  cases t with
  | scalar kind => exact ⟨kind, rfl, h⟩
  | _ => cases h

/-- A kind takes and gives bytes of one width only. -/
structure ScalarKind.HasWidth (kind : ScalarKind) (width : Nat) : Prop where
  refuses : ∀ b : Bytes, b.length ≠ width →
    decodeValue (.scalar kind) (some b) = .error (.decode kind.name (.width width b.length)) ∧
      decodeElement (.scalar kind) (some b) = .error (.decode kind.name (.width width b.length))
  writes : ∀ v, kind.Holds v → ∃ b, encodeValue (.scalar kind) v = .ok (some b) ∧ b.length = width
  gives : ∀ v out, v ≠ .null → (∀ b, v ≠ .blob b) → encodeValue (.scalar kind) v = .ok out →
    ∃ b, out = some b ∧ b.length = width

theorem hasWidth {kind : ScalarKind} {width : Nat} (hwidth : kind.fixedWidth = some width) :
    kind.HasWidth width where
  refuses b h := by
    have hrefused := Scalar.decode_of_length_ne hwidth h
    exact ⟨hrefused, hrefused⟩
  writes v hv := by
    rcases Scalar.encode?_of_holds hv with ⟨b, rfl, rfl⟩ | ⟨b, hb⟩
    · cases hwidth
    · exact ⟨b, Scalar.encodeValue_of_encode? hb, Scalar.length_of_encode? hwidth hb⟩
  gives v out hnull hraw h := by
    cases hencode : Scalar.encode? kind v with
    | some b =>
      rw [Scalar.encodeValue_of_encode? hencode] at h
      cases h
      exact ⟨b, rfl, Scalar.length_of_encode? hwidth hencode⟩
    | none =>
      rw [encodeValue, hencode] at h
      · cases h
      · exact hnull
      · exact hraw

/-! ## Totality -/

/-- Decoding gives a value or an error of decoding, for columns, elements and the components of
structures. In place it takes the same course to the end, whatever the greatest number is that
positions are counted by: no step is out of range, no loop goes on and no reader stands behind its
input, nor does an index lead outside the collection it belongs to. A kind with one width takes no
other one, and its values are written in that width. -/
theorem decoding_total :
    (∀ t raw, Answers (decodeValue t raw) ∧ Answers (decodeElement t raw)) ∧
      (∀ types components (i : Nat), i < types.length →
        Answers (readComponent types components i)) ∧
      (∀ (d : UdtType) name components i, d.FirstNamed name i →
        Answers (d.readField components name)) ∧
      (∀ limit, 2 ^ 32 - 1 ≤ limit → ∀ t raw, InPlace.Countable limit raw →
        InPlace.decodeValue limit t raw = InPlace.lift (decodeValue t raw) ∧
          InPlace.decodeElement limit t raw = InPlace.lift (decodeElement t raw) ∧
          InPlace.Completes (InPlace.decodeValue limit t raw) ∧
          InPlace.Completes (InPlace.decodeElement limit t raw)) ∧
      (∀ limit b r, InPlace.Reached limit b r → r.bytes = b ∧ r.position ≤ b.length) ∧
      (∀ digest vs bucket, ∀ i ∈ (ValueSet.ofList digest vs).index.buckets.getD bucket #[],
        i < (ValueSet.ofList digest vs).size) ∧
      (∀ digest entries bucket,
        ∀ i ∈ (ValueMap.ofList digest entries).index.buckets.getD bucket #[],
          i < (ValueMap.ofList digest entries).size) ∧
      ∀ (t : ColumnType) width, t.kind.fixedWidth = some width →
        ∃ kind, t = .scalar kind ∧ kind.HasWidth width := by
  refine ⟨?answers, ?component, ?field, ?inPlace, fun _ _ _ h => h.position_le, ?set, ?map, ?width⟩
  case answers =>
    intro t raw
    exact ⟨answers_decodeValue t raw, answers_decodeElement t raw⟩
  case component =>
    intro types components i hi
    exact answers_readComponent hi components
  case field =>
    intro d name components i h
    exact answers_readField h components
  case inPlace =>
    intro limit hlimit t raw hraw
    rw [InPlace.decodeValue_eq_lift hlimit hraw, InPlace.decodeElement_eq_lift hlimit hraw]
    exact ⟨rfl, rfl, InPlace.completes_lift _, InPlace.completes_lift _⟩
  case set =>
    intro digest vs bucket i hi
    exact ValueSet.lt_size digest vs hi
  case map =>
    intro digest entries bucket i hi
    exact ValueMap.lt_size digest entries hi
  case width =>
    intro t width h
    obtain ⟨kind, rfl, hwidth⟩ := ColumnType.exists_scalar h
    exact ⟨kind, rfl, hasWidth hwidth⟩

/-- A map whose second value is cut short, where positions have 32 bits; a component of a wrong
width, and one that is missing. -/
theorem decoding_total_cut_short :
    let t := ColumnType.map (.scalar .tinyint) (.scalar .bigint)
    let b : Bytes :=
      [0, 0, 0, 2, 0, 0, 0, 1, 7, 0xFF, 0xFF, 0xFF, 0xFF, 0, 0, 0, 1, 8, 0, 0, 0, 8, 1]
    let d : UdtType := ⟨"shop", "stock", [("count", .scalar .int)]⟩
    let s := ValueSet.ofList mixDigest [.null]
    let m := ValueMap.ofList mixDigest [(.null, .null)]
    let bucket := mixDigest Value.null.describe
    (InPlace.Countable 4294967295 (some b) ∧ InPlace.Reached 4294967295 b ⟨b, 4⟩ ∧
        d.FirstNamed "COUNT" 0 ∧ 0 ∈ s.index.buckets.getD bucket #[] ∧
        0 ∈ m.index.buckets.getD bucket #[]) ∧
      InPlace.decodeValue 4294967295 t (some b) =
        .error (.error (.decode t.name (.truncated 22 23))) ∧
      4 ≤ b.length ∧ Answers (d.readField [some [1, 2, 3]] "COUNT") ∧
      Answers (readComponent d.fieldTypes [] 0) ∧ 0 < s.size ∧ 0 < m.size ∧
      decodeElement (.scalar .bigint) (some [1]) = .error (.decode "bigint" (.width 8 1)) := by
  intro t b d s m bucket
  have hcountable : InPlace.Countable 4294967295 (some b) := by
    rintro _ ⟨⟩
    decide
  have htake : InPlace.Reader.take 4294967295 ⟨b, 0⟩ 4 = .ok (b.take 4, ⟨b, 4⟩) := rfl
  have hreached : InPlace.Reached 4294967295 b ⟨b, 4⟩ := .take .start htake
  have hnamed : d.FirstNamed "COUNT" 0 := by
    refine ⟨⟨("count", .scalar .int), rfl, by decide⟩, ?_⟩
    intro j hj
    omega
  have hset : 0 ∈ s.index.buckets.getD bucket #[] := by
    have hindexed : s.Indexed mixDigest := ValueSet.indexed_ofList [.null]
    have hlisted := hindexed bucket
    rw [ValueSet.toList_ofList (List.pairwise_singleton _ _)] at hlisted
    rw [← Array.mem_toList_iff, hlisted]
    simp [bucket]
  have hmap : 0 ∈ m.index.buckets.getD bucket #[] := by
    have hdistinct : Distinct ([(Value.null, Value.null)].map (·.1)) := List.pairwise_singleton _ _
    have hindexed : m.Indexed mixDigest := ValueMap.indexed_ofList [(.null, .null)]
    have hlisted := hindexed bucket
    rw [ValueMap.keys, ValueMap.toList_ofList hdistinct] at hlisted
    rw [← Array.mem_toList_iff, hlisted]
    simp [bucket]
  obtain ⟨-, hcomponent, hfield, hplace, hposition, hsets, hmaps, hwidth⟩ := decoding_total
  refine ⟨⟨hcountable, hreached, hnamed, hset, hmap⟩, ?_, (hposition _ b _ hreached).2,
    hfield d _ _ 0 hnamed, hcomponent _ _ 0 (by decide), hsets _ _ _ 0 hset, hmaps _ _ _ 0 hmap, ?_⟩
  · rw [(hplace _ (by norm_num) t (some b) hcountable).1]
    rfl
  · obtain ⟨kind, hkind, hwide⟩ := hwidth (.scalar .bigint) 8 rfl
    cases hkind
    exact (hwide.refuses [1] (by decide)).2

end WideRow
