import WideRow.Proofs.BoundedNumeral
import WideRow.Proofs.Narrowing
import WideRow.Proofs.Scalar

/-!
# The lenient read of 32 bits

Bytes of a type with an integer reading always read as some number: as the integer that they denote,
where they denote one of 32 bits, and as zero everywhere else. No integer is cut to 32 bits.
-/

namespace WideRow

open Result

/-! ## The integers that bytes denote -/

namespace ScalarKind

/-- The kinds whose bytes may denote an integer. -/
def integerKinds : List ScalarKind :=
  [.int, .smallint, .tinyint, .varint, .ascii, .text, .varchar]

def integerWidth? : ScalarKind → Option Nat
  | .int => some 4
  | .smallint => some 2
  | .tinyint => some 1
  | _ => none

/-- The integer that bytes of a kind denote: two's complement of the width of the kind, of any width
for `varint`, and of a kind of text the numeral that is left without the blanks at both ends. -/
inductive Denotes : ScalarKind → Bytes → Int → Prop where
  | fixed {kind : ScalarKind} {b : Bytes} (hwidth : kind.integerWidth? = some b.length) :
      Denotes kind b (Bytes.toInt b)
  | varint {b : Bytes} (hne : b ≠ []) : Denotes .varint b (Bytes.toInt b)
  | text {kind : ScalarKind} {s : String} {n : Int} (hkind : kind.isText = true)
      (hascii : kind = .ascii → ∀ c ∈ s.toList, c.toNat < 128)
      (hnumeral : Text.Numeral (Text.trim s).toList n) : Denotes kind (Text.Utf8.encode s) n

variable {kind : ScalarKind} {b : Bytes} {n : Int}

theorem integerWidth?_of_isText (hkind : kind.isText = true) : kind.integerWidth? = none := by
  cases kind <;> first | rfl | simp [isText] at hkind

theorem denotes_fixed {width : Nat} (hwidth : kind.integerWidth? = some width) :
    Denotes kind b n ↔ b.length = width ∧ Bytes.toInt b = n := by
  constructor
  · intro h
    cases h with
    | fixed hlength => simp_all
    | varint => simp [integerWidth?] at hwidth
    | text hkind => simp [integerWidth?_of_isText hkind] at hwidth
  · rintro ⟨rfl, rfl⟩
    exact .fixed hwidth

theorem denotes_varint : Denotes .varint b n ↔ b ≠ [] ∧ Bytes.toInt b = n := by
  constructor
  · intro h
    cases h with
    | fixed hwidth => simp [integerWidth?] at hwidth
    | varint hne => exact ⟨hne, rfl⟩
    | text hkind => simp [isText] at hkind
  · rintro ⟨hne, rfl⟩
    exact .varint hne

theorem denotes_text (hkind : kind.isText = true) :
    Denotes kind b n ↔
      ∃ s, Scalar.decodeText kind b = .ok s ∧ Text.Numeral (Text.trim s).toList n := by
  constructor
  · intro h
    cases h with
    | fixed hwidth => simp [integerWidth?_of_isText hkind] at hwidth
    | varint => simp [isText] at hkind
    | text _ hascii hnumeral => exact ⟨_, Scalar.decodeText_encode hascii, hnumeral⟩
  · rintro ⟨s, hs, hnumeral⟩
    obtain ⟨rfl, hascii⟩ := Scalar.of_decodeText hs
    exact .text hkind hascii hnumeral

end ScalarKind

namespace Cell

open ScalarKind

/-! ## Reading each kind -/

variable {kind : ScalarKind}

/-- Bytes are read as the 32-bit integer that they denote, and as nothing if they denote none. -/
def Reads (kind : ScalarKind) (reading : Bytes → Option Int32) : Prop :=
  ∀ b i, reading b = some i ↔ kind.Denotes b i.toInt

theorem reads_fixed {α : Type} {width : Nat} {typeName : String} {wrap : Int → α}
    {widen : α → Int32} (hwidth : kind.integerWidth? = some width)
    (hkept : ∀ n : Int, -(256 ^ width) ≤ 2 * n → 2 * n < 256 ^ width → (widen (wrap n)).toInt = n) :
    Reads kind fun b => (do
      let b ← Scalar.fixed width typeName b
      return wrap (Bytes.toInt b) : Result α).toOption.map widen := by
  -- A fixed width is read exactly if every integer of the width keeps its value.
  intro b i
  rw [denotes_fixed hwidth, Option.map_eq_some_iff]
  constructor
  · rintro ⟨a, hread, rfl⟩
    obtain ⟨c, hc, hwrap⟩ := bind_eq_ok.mp (toOption_eq_some.mp hread)
    obtain ⟨rfl, rfl⟩ := Scalar.of_fixed hc
    cases hwrap
    have hbounds := Bytes.toInt_bounds c
    exact ⟨rfl, (hkept _ hbounds.1 hbounds.2).symm⟩
  · rintro ⟨rfl, hvalue⟩
    have hbounds := Bytes.toInt_bounds b
    refine ⟨wrap (Bytes.toInt b), ?_, ?_⟩
    · rw [Scalar.fixed_of_length rfl]
      rfl
    · apply Int32.toInt_inj.mp
      rw [hkept _ hbounds.1 hbounds.2, hvalue]

theorem reads_int : Reads .int fun b => (Scalar.decodeInt b).toOption := by
  have h : Reads .int fun b => (Scalar.decodeInt b).toOption.map id :=
    reads_fixed rfl fun n hlow hhigh => Int32.toInt_ofInt_of_le (by omega) (by omega)
  simpa using h

theorem reads_smallint :
    Reads .smallint fun b => (Scalar.decodeSmallint b).toOption.map Int16.toInt32 := by
  apply reads_fixed rfl
  intro n hlow hhigh
  rw [Int16.toInt_toInt32, Int16.toInt_ofInt_of_le (by omega) (by omega)]

theorem reads_tinyint :
    Reads .tinyint fun b => (Scalar.decodeTinyint b).toOption.map Int8.toInt32 := by
  apply reads_fixed rfl
  intro n hlow hhigh
  rw [Int8.toInt_toInt32, Int8.toInt_ofInt_of_le (by omega) (by omega)]

theorem narrow?_eq_some_iff {n : Int} {i : Int32} : narrow? n = some i ↔ i.toInt = n := by
  have hlow := i.le_toInt
  have hhigh := i.toInt_lt
  unfold narrow?
  split
  · rename_i hrange
    rw [Option.some.injEq, ← Int32.toInt_inj, Int32.toInt_ofInt_of_le (by omega) (by omega)]
    exact eq_comm
  · simp
    omega

theorem toInt64?_bind_narrow? {v : Varint} {i : Int32} :
    (v.toInt64?.bind fun j => narrow? j.toInt) = some i ↔ i.toInt = v.toInt := by
  -- An integer that has 32 bits has 64, so the step in between takes nothing away.
  rw [Option.bind_eq_some_iff]
  constructor
  · rintro ⟨j, hj, hi⟩
    rw [narrow?_eq_some_iff.mp hi, Varint.toInt64?_eq_some_iff.mp hj]
  · intro h
    refine ⟨i.toInt64, ?_, ?_⟩
    · rw [Varint.toInt64?_eq_some_iff, Int32.toInt_toInt64, h]
    · rw [narrow?_eq_some_iff, Int32.toInt_toInt64]

theorem decodeVarint_eq_ok_iff {b : Bytes} {v : Varint} :
    Scalar.decodeVarint b = .ok v ↔ b ≠ [] ∧ Varint.ofSignedBytes b = v := by
  unfold Scalar.decodeVarint
  split
  · rename_i hempty
    simp [List.isEmpty_iff.mp hempty]
  · rename_i hne
    simp [List.isEmpty_iff.not.mp hne]

theorem reads_varint :
    Reads .varint (fun b => do
      let v ← (Scalar.decodeVarint b).toOption
      narrow? (← v.toInt64?).toInt) := by
  intro b i
  simp only [Option.bind_eq_bind, Option.bind_eq_some_iff (f := fun v : Varint => _),
    toOption_eq_some, toInt64?_bind_narrow?, decodeVarint_eq_ok_iff, denotes_varint]
  constructor
  · rintro ⟨v, ⟨hne, rfl⟩, hvalue⟩
    exact ⟨hne, by rw [hvalue, Varint.toInt_ofSignedBytes]⟩
  · rintro ⟨hne, hvalue⟩
    exact ⟨_, ⟨hne, rfl⟩, by rw [← hvalue, Varint.toInt_ofSignedBytes]⟩

theorem reads_text (hkind : kind.isText = true) :
    Reads kind (fun b => do
      let s ← (Scalar.decodeText kind b).toOption
      Text.readInt32? (Text.trimChars s.toList)) := by
  intro b i
  rw [denotes_text hkind]
  simp [Option.bind_eq_some_iff, toOption_eq_some, Text.readInt32?_eq_some_iff, Text.trim]

theorem intReading_of_mem (hkind : kind ∈ integerKinds) :
    ∃ reading, intReading kind = some reading ∧ Reads kind reading := by
  simp only [integerKinds, List.mem_cons, List.not_mem_nil, or_false] at hkind
  rcases hkind with rfl | rfl | rfl | rfl | rfl | rfl | rfl
  · exact ⟨_, rfl, reads_int⟩
  · exact ⟨_, rfl, reads_smallint⟩
  · exact ⟨_, rfl, reads_tinyint⟩
  · exact ⟨_, rfl, reads_varint⟩
  · exact ⟨_, rfl, reads_text rfl⟩
  · exact ⟨_, rfl, reads_text rfl⟩
  · exact ⟨_, rfl, reads_text rfl⟩

theorem intReading_of_notMem (hkind : kind ∉ integerKinds) : intReading kind = none := by
  cases kind <;> first | rfl | simp [integerKinds] at hkind

/-! ## The lenient read -/

variable {c : Cell} {b : Bytes}

theorem intLenient_of_null (hraw : c.raw = none) : c.intLenient = .ok 0 := by
  unfold intLenient read
  rw [hraw]

theorem intLenient_of_mem (htype : c.type.kind = .scalar kind) (hkind : kind ∈ integerKinds)
    (hraw : c.raw = some b) :
    ∃ i, c.intLenient = .ok i ∧ (∀ j : Int32, kind.Denotes b j.toInt → i = j) ∧
      ((∀ j : Int32, ¬ kind.Denotes b j.toInt) → i = 0) := by
  obtain ⟨reading, hreading, hreads⟩ := intReading_of_mem hkind
  refine ⟨(reading b).getD 0, ?_, ?_, ?_⟩
  · unfold intLenient read
    simp [hraw, htype, hreading]
  · intro j hj
    rw [(hreads b j).mpr hj, Option.getD_some]
  · intro hnone
    have hread : reading b = none :=
      Option.eq_none_iff_forall_ne_some.mpr fun j hj => hnone j ((hreads b j).mp hj)
    rw [hread, Option.getD_none]

theorem intLenient_of_other (htype : ∀ kind ∈ integerKinds, c.type.kind ≠ .scalar kind)
    (hraw : c.raw = some b) : c.intLenient = .error (c.mismatch "i32") := by
  unfold intLenient read
  rw [hraw]
  cases hkind : c.type.kind with
  | scalar kind =>
    have hnone : intReading kind = none := intReading_of_notMem fun h => htype kind h hkind
    simp [hnone]
  | _ => simp

/-- The lenient read never fails on a null cell, which reads as zero, nor on bytes of a type with an
integer reading: they read as the integer that they denote, if it has 32 bits, and else as zero. It
refuses present bytes of any other type. -/
theorem intLenient_never_invents (c : Cell) :
    (c.raw = none → c.intLenient = .ok 0) ∧
      (∀ kind ∈ integerKinds, c.type.kind = .scalar kind → ∀ b, c.raw = some b →
        ∃ i, c.intLenient = .ok i ∧
          (∀ n, kind.Denotes b n → -2 ^ 31 ≤ n ∧ n < 2 ^ 31 → i.toInt = n) ∧
          ((∀ n, kind.Denotes b n → ¬ (-2 ^ 31 ≤ n ∧ n < 2 ^ 31)) → i = 0)) ∧
      ((∀ kind ∈ integerKinds, c.type.kind ≠ .scalar kind) → ∀ b, c.raw = some b →
        c.intLenient = .error (.typeMismatch c.name c.type.name "i32")) := by
  refine ⟨intLenient_of_null, ?_, ?_⟩
  · intro kind hkind htype b hraw
    obtain ⟨i, hread, hdenoted, hother⟩ := intLenient_of_mem htype hkind hraw
    refine ⟨i, hread, ?_, ?_⟩
    · intro n hn hrange
      have hkept : (Int32.ofInt n).toInt = n := Int32.toInt_ofInt_of_le hrange.1 hrange.2
      rw [hdenoted (Int32.ofInt n) (by rwa [hkept]), hkept]
    · intro hnone
      exact hother fun j hj => hnone _ hj ⟨j.le_toInt, j.toInt_lt⟩
  · intro htype b hraw
    exact intLenient_of_other htype hraw

/-- Six bytes of an integer whose last four are those of 42 read as zero, and the numeral of 42 with
a sign and blanks reads as 42. -/
theorem intLenient_never_invents_forty_two :
    let wide : Cell := ⟨"total", .scalar .varint, some [0x01, 0, 0, 0, 0, 0x2A]⟩
    let numeral : Cell := ⟨"total", .scalar .ascii, some (Text.Utf8.encode " +42\n")⟩
    (wide.type.kind = .scalar .varint ∧ ∀ n, ScalarKind.Denotes .varint [0x01, 0, 0, 0, 0, 0x2A] n →
        ¬ (-2 ^ 31 ≤ n ∧ n < 2 ^ 31)) ∧
      (numeral.type.kind = .scalar .ascii ∧
        ScalarKind.Denotes .ascii (Text.Utf8.encode " +42\n") 42) ∧
      wide.intLenient = .ok 0 ∧ ∃ i, numeral.intLenient = .ok i ∧ i.toInt = 42 := by
  intro wide numeral
  have hwide : ∀ n, ScalarKind.Denotes .varint [0x01, 0, 0, 0, 0, 0x2A] n →
      ¬ (-2 ^ 31 ≤ n ∧ n < 2 ^ 31) := by
    intro n hn
    obtain ⟨-, rfl⟩ := denotes_varint.mp hn
    decide
  have hnumeral : ScalarKind.Denotes .ascii (Text.Utf8.encode " +42\n") 42 :=
    .text rfl (by simp) (@Text.Numeral.plus ['4', '2'] (by simp) (by simp))
  refine ⟨⟨rfl, hwide⟩, ⟨rfl, hnumeral⟩, ?_, ?_⟩
  · obtain ⟨-, hserved, -⟩ := intLenient_never_invents wide
    obtain ⟨i, hread, -, hzero⟩ := hserved .varint (by decide) rfl _ rfl
    rw [hread, hzero hwide]
  · obtain ⟨-, hserved, -⟩ := intLenient_never_invents numeral
    obtain ⟨i, hread, hdenoted, -⟩ := hserved .ascii (by decide) rfl _ rfl
    exact ⟨i, hread, hdenoted 42 hnumeral (by decide)⟩

end Cell

end WideRow
