import Mathlib.Data.List.Induction
import WideRow.Proofs.Numeral

/-!
# Text of integers

The text of an integer is its one canonical decimal numeral: no zero stands in front, and a minus
sign exactly if the integer is negative. What is read is any numeral, canonical or not, with or
without a sign, so the text of every integer is read as that integer.
-/

namespace WideRow

namespace Text

/-! ## Canonical digits -/

/-- The digits of a number, no zero in front of others. -/
structure CanonicalDigits (n : Nat) (ds : List Char) : Prop where
  ne_nil : ds ≠ []
  isDigit : ∀ c ∈ ds, c.isDigit = true
  value : Nat.ofDigitChars 10 ds 0 = n
  zero_alone : ds.head? = some '0' → ds = ['0']

theorem digits_succ {n : Nat} (hn : 10 ≤ n) :
    digits n = digits (n / 10) ++ [Nat.digitChar (n % 10)] :=
  Nat.toDigits_of_base_le (by decide) hn

theorem digits_of_lt {n : Nat} (hn : n < 10) : digits n = [Nat.digitChar n] :=
  Nat.toDigits_of_lt_base hn

theorem head_digits {n : Nat} (hpos : 0 < n) : (digits n).head? ≠ some '0' := by
  induction n using Nat.strong_induction_on with
  | _ n ih =>
    by_cases hn : n < 10
    · rw [digits_of_lt hn, List.head?_cons, ne_eq, Option.some.injEq, Nat.digitChar_eq_zero]
      omega
    · rw [digits_succ (by omega), List.head?_append_of_ne_nil _ (digits_ne_nil _)]
      exact ih (n / 10) (by omega) (by omega)

theorem canonicalDigits_digits (n : Nat) : CanonicalDigits n (digits n) where
  ne_nil := digits_ne_nil n
  isDigit := isDigit_digits
  value := ofDigitChars_digits n
  zero_alone := by
    intro hzero
    rcases Nat.eq_zero_or_pos n with rfl | hpos
    · rfl
    · exact absurd hzero (head_digits hpos)

theorem digitChar_of_isDigit {c : Char} (h : c.isDigit = true) :
    Nat.digitChar (c.toNat - '0'.toNat) = c := by
  have hrange := range_of_isDigit h
  have hzero : '0'.toNat = 48 := rfl
  apply Char.toNat_inj.mp
  rw [Nat.toNat_digitChar_of_lt_ten (by omega)]
  omega

theorem CanonicalDigits.eq_digits {n : Nat} {ds : List Char} (h : CanonicalDigits n ds) :
    ds = digits n := by
  induction ds using List.reverseRecOn generalizing n with
  | nil => exact absurd rfl h.ne_nil
  | append_singleton ds d ih =>
    have hlast : d.isDigit = true := h.isDigit d (by simp)
    have hdigit := range_of_isDigit hlast
    have hchar := digitChar_of_isDigit hlast
    have hvalue : 10 * Nat.ofDigitChars 10 ds 0 + (d.toNat - '0'.toNat) = n := by
      rw [← h.value, Nat.ofDigitChars_append, Nat.ofDigitChars_cons, Nat.ofDigitChars_nil]
    have hsmall : d.toNat - '0'.toNat < 10 := by
      have hzero : '0'.toNat = 48 := rfl
      omega
    by_cases hnil : ds = []
    · rw [hnil, Nat.ofDigitChars_nil] at hvalue
      rw [hnil, ← hvalue, digits_of_lt (by omega), Nat.mul_zero, Nat.zero_add, hchar]
      rfl
    · have hhead : ds.head? ≠ some '0' := by
        intro hzero
        have halone := h.zero_alone (by rwa [List.head?_append_of_ne_nil _ hnil])
        have hlength := congrArg List.length halone
        rw [List.length_append, List.length_singleton, List.length_singleton] at hlength
        exact hnil (List.length_eq_zero_iff.mp (by omega))
      have hfront : ds = digits (Nat.ofDigitChars 10 ds 0) :=
        ih ⟨hnil, fun c hc => h.isDigit c (List.mem_append_left _ hc), rfl,
          fun hzero => absurd hzero hhead⟩
      have hpos : 0 < Nat.ofDigitChars 10 ds 0 := by
        by_contra hzero
        rw [Nat.eq_zero_of_not_pos hzero] at hfront
        exact hhead (by rw [hfront]; rfl)
      rw [← hvalue, digits, ← Nat.toDigits_append_toDigits (by decide) hpos hsmall,
        Nat.toDigits_of_lt_base hsmall, hchar]
      exact congrArg (· ++ [d]) hfront

theorem canonicalDigits_iff {n : Nat} {ds : List Char} : CanonicalDigits n ds ↔ ds = digits n := by
  constructor
  · exact CanonicalDigits.eq_digits
  · rintro rfl
    exact canonicalDigits_digits n

/-! ## Numerals of integers -/

/-- Canonical digits, after a minus sign exactly if the integer is negative. -/
def CanonicalNumeral (i : Int) (cs : List Char) : Prop :=
  ∃ ds, CanonicalDigits i.natAbs ds ∧ cs = signed (decide (i < 0)) ds

/-- At most one sign before one or more digits, and the integer that they denote. -/
inductive Numeral : List Char → Int → Prop where
  | unsigned {ds : List Char} (hne : ds ≠ []) (hdigits : ∀ c ∈ ds, c.isDigit = true) :
    Numeral ds (Nat.ofDigitChars 10 ds 0)
  | plus {ds : List Char} (hne : ds ≠ []) (hdigits : ∀ c ∈ ds, c.isDigit = true) :
    Numeral ('+' :: ds) (Nat.ofDigitChars 10 ds 0)
  | minus {ds : List Char} (hne : ds ≠ []) (hdigits : ∀ c ∈ ds, c.isDigit = true) :
    Numeral ('-' :: ds) (-(Nat.ofDigitChars 10 ds 0 : Int))

theorem canonicalNumeral_iff {i : Int} {cs : List Char} :
    CanonicalNumeral i cs ↔ cs = signed (decide (i < 0)) (digits i.natAbs) := by
  unfold CanonicalNumeral
  simp only [canonicalDigits_iff, exists_eq_left]

theorem CanonicalNumeral.numeral {i : Int} {cs : List Char} (h : CanonicalNumeral i cs) :
    Numeral cs i := by
  obtain ⟨ds, hds, rfl⟩ := h
  by_cases hsign : i < 0
  · have hminus := Numeral.minus hds.ne_nil hds.isDigit
    rw [hds.value, Int.ofNat_natAbs_of_nonpos (Int.le_of_lt hsign), Int.neg_neg] at hminus
    simpa [hsign, signed] using hminus
  · have hplain := Numeral.unsigned hds.ne_nil hds.isDigit
    rw [hds.value, Int.natAbs_of_nonneg (Int.not_lt.mp hsign)] at hplain
    simpa [hsign, signed] using hplain

theorem CanonicalNumeral.isBlank {i : Int} {cs : List Char} (h : CanonicalNumeral i cs) :
    ∀ c ∈ cs, isBlank c = false := by
  obtain ⟨ds, hds, rfl⟩ := h
  intro c hc
  rcases mem_signed hc with rfl | hdigit
  · decide
  · exact isBlank_of_isDigit (hds.isDigit c hdigit)

end Text

namespace Varint

open Text

/-! ## Writing -/

theorem numeral_eq (v : Varint) : v.numeral = signed v.negative (digits v.toInt.natAbs) := by
  unfold numeral
  rw [magnitudeDigits_eq, natAbs_toInt]
  rfl

theorem canonicalNumeral_numeral (v : Varint) : CanonicalNumeral v.toInt v.numeral := by
  have hsign : v.negative = decide (v.toInt < 0) := by
    rw [Bool.eq_iff_iff, decide_eq_true_eq, negative_iff]
  rw [canonicalNumeral_iff, numeral_eq, hsign]

theorem text_eq_iff {v : Varint} {s : String} : v.text = s ↔ CanonicalNumeral v.toInt s.toList := by
  have hnumeral := canonicalNumeral_iff.mp v.canonicalNumeral_numeral
  rw [canonicalNumeral_iff, ← hnumeral, text]
  constructor
  · rintro rfl
    exact String.toList_ofList
  · intro h
    rw [← h, String.ofList_toList]

/-! ## Reading -/

theorem toInt_ofSignAndDigits (negative : Bool) (ds : List Char) :
    (ofSignAndLimbs negative (limbsOfDigits ds)).toInt =
      if negative then -(Nat.ofDigitChars 10 ds 0 : Int) else Nat.ofDigitChars 10 ds 0 := by
  rw [toInt_ofSignAndLimbs, toNat_limbsOfDigits]

theorem ofNumeral?_of_numeral {cs : List Char} {i : Int} (h : Numeral cs i) :
    ∃ v, ofNumeral? cs = some v ∧ v.toInt = i := by
  cases h with
  | unsigned hne hdigits =>
    exact ⟨_, ofNumeral?_signed false hne hdigits, toInt_ofSignAndDigits false cs⟩
  | @plus ds hne hdigits =>
    have hplus : ofNumeral? ('+' :: ds) = ofNumeral? (signed false ds) := by
      unfold ofNumeral?
      rw [splitSign_signed false hdigits]
      rfl
    rw [hplus]
    exact ⟨_, ofNumeral?_signed false hne hdigits, toInt_ofSignAndDigits false ds⟩
  | @minus ds hne hdigits =>
    exact ⟨_, ofNumeral?_signed true hne hdigits, toInt_ofSignAndDigits true ds⟩

theorem digits_of_guard {ds : List Char} (h : ¬ (ds.isEmpty || !ds.all Char.isDigit) = true) :
    ds ≠ [] ∧ ∀ c ∈ ds, c.isDigit = true := by
  rwa [Bool.not_eq_true, Bool.or_eq_false_iff, Bool.not_eq_false', List.all_eq_true,
    List.isEmpty_eq_false_iff] at h

theorem numeral_of_ofNumeral? {cs : List Char} {v : Varint} (h : ofNumeral? cs = some v) :
    Numeral cs v.toInt := by
  unfold ofNumeral? splitSign at h
  split at h
  rename_i negative ds hsplit
  split at h
  · cases h
  rename_i hguard
  obtain ⟨hne, hdigits⟩ := digits_of_guard hguard
  cases h
  rw [toInt_ofSignAndDigits]
  split at hsplit
  · cases hsplit
    exact .minus hne hdigits
  · cases hsplit
    exact .plus hne hdigits
  · cases hsplit
    exact .unsigned hne hdigits

theorem parse_eq_ok_iff {s : String} {v : Varint} :
    parse s = .ok v ↔ Numeral (trim s).toList v.toInt := by
  have hparse : parse s = .ok v ↔ ofNumeral? (trim s).toList = some v := by
    unfold parse
    rw [trim, String.toList_ofList]
    cases ofNumeral? (trimChars s.toList) with
    | none => simp
    | some w => simp
  rw [hparse]
  constructor
  · exact numeral_of_ofNumeral?
  · intro h
    obtain ⟨w, hw, hvalue⟩ := ofNumeral?_of_numeral h
    rw [hw, toInt_injective hvalue]

theorem parse_of_numeral {s : String} {i : Int} (h : Numeral (trim s).toList i) :
    ∃ v, parse s = .ok v := by
  obtain ⟨v, -, rfl⟩ := ofNumeral?_of_numeral h
  exact ⟨v, parse_eq_ok_iff.mpr h⟩

theorem parse_of_not_numeral {s : String} (h : ¬ ∃ i, Numeral (trim s).toList i) :
    parse s = .error (.decode "varint" (.notInteger (trim s))) := by
  cases hparse : parse s with
  | ok v => exact absurd ⟨_, parse_eq_ok_iff.mp hparse⟩ h
  | error e =>
    unfold parse at hparse
    split at hparse
    · cases hparse
    · exact hparse.symm

theorem trim_text (v : Varint) : (trim v.text).toList = v.numeral := by
  rw [trim, text, String.toList_ofList, String.toList_ofList]
  exact trimChars_of_not_blank v.canonicalNumeral_numeral.isBlank

/-- The text of an integer is its one canonical numeral, with as many digits as are counted; what is
read, without the blanks around it, is every numeral of an integer and nothing else. So the text of
an integer is read as that integer. -/
theorem text_canonical_numeral :
    (∀ (v : Varint) (s : String), v.text = s ↔ CanonicalNumeral v.toInt s.toList) ∧
      (∀ (v : Varint) (ds : List Char), CanonicalDigits v.toInt.natAbs ds →
        v.digitCount = ds.length) ∧
      (∀ s : String, (∃ v, parse s = .ok v) ↔ ∃ i, Numeral (trim s).toList i) ∧
      (∀ (s : String) (v : Varint), parse s = .ok v ↔ Numeral (trim s).toList v.toInt) ∧
      (∀ s : String, (¬ ∃ i, Numeral (trim s).toList i) →
        parse s = .error (.decode "varint" (.notInteger (trim s)))) ∧
      ∀ v : Varint, parse v.text = .ok v := by
  refine ⟨fun _ _ => text_eq_iff, ?_, fun s => ⟨?_, ?_⟩, fun _ _ => parse_eq_ok_iff,
    fun _ => parse_of_not_numeral, ?_⟩
  · intro v ds hds
    rw [hds.eq_digits, digitCount, magnitudeDigits_eq, natAbs_toInt]
  · rintro ⟨v, hv⟩
    exact ⟨v.toInt, parse_eq_ok_iff.mp hv⟩
  · rintro ⟨i, h⟩
    exact parse_of_numeral h
  · intro v
    rw [parse_eq_ok_iff, trim_text]
    exact v.canonicalNumeral_numeral.numeral

/-- The lower chunk of nine digits is written with its zeros, zero may be read with a minus sign,
and two signs are too many. -/
theorem text_canonical_numeral_two_chunks :
    ((ofInt64 (-1000000007)).text = "-1000000007" ∧ (ofInt64 (-1000000007)).digitCount = 10) ∧
      parse " -0 " = .ok zero ∧
      parse "+-7" = .error (.decode "varint" (.notInteger "+-7")) := by
  have hdigits : CanonicalDigits (ofInt64 (-1000000007)).toInt.natAbs "1000000007".toList :=
    ⟨by decide, List.all_eq_true.mp (by decide), by decide, by decide⟩
  have hminus : Numeral (trim " -0 ").toList zero.toInt := by
    have htrimmed : (trim " -0 ").toList = ['-', '0'] := by decide
    rw [htrimmed]
    exact Numeral.minus (by decide) (List.all_eq_true.mp (by decide))
  have hsigns : ¬ ∃ i, Numeral (trim "+-7").toList i := by
    have htrimmed : (trim "+-7").toList = ['+', '-', '7'] := by decide
    rw [htrimmed]
    rintro ⟨i, h⟩
    cases h with
    | unsigned _ hall => exact absurd (hall '+' (by simp)) (by decide)
    | plus _ hall => exact absurd (hall '-' (by simp)) (by decide)
  obtain ⟨hwritten, hcounted, -, hread, hrefused, -⟩ := text_canonical_numeral
  refine ⟨⟨(hwritten _ _).mpr ⟨_, hdigits, by decide⟩, hcounted _ _ hdigits⟩,
    (hread _ _).mpr hminus, ?_⟩
  rw [hrefused _ hsigns]
  rfl

end Varint

end WideRow
