import Mathlib
import WideRow.Number.Decimal
import WideRow.Proofs.Numeral
import WideRow.Proofs.Span

/-!
# Text of decimals, read back

Whatever its layout, the text of a decimal is a sign, digits around a point and maybe an exponent.
Without the point the digits are those of the unscaled number after some zeros, and the digits after
the point less the exponent are the scale. So the text is read as the same decimal, unless the
exponent has more than 32 bits.
-/

namespace WideRow.Decimal

open Text

/-! ## Layouts -/

/-- Digits with a point among them, if any stand after it. -/
def mantissa (whole fraction : List Char) : List Char :=
  if fraction = [] then whole else whole ++ '.' :: fraction

/-- Digits before and after a point that are the given ones after some zeros. -/
structure Lays (ds whole fraction : List Char) : Prop where
  whole_ne_nil : whole ≠ []
  digits : ∃ zeros, whole ++ fraction = List.replicate zeros '0' ++ ds

theorem plainNumeral_eq {ds : List Char} (hne : ds ≠ []) (scale : Nat) :
    ∃ whole fraction, plainNumeral ds scale = mantissa whole fraction ∧ Lays ds whole fraction ∧
      fraction.length = scale := by
  unfold plainNumeral
  split
  · rename_i hzero
    exact ⟨ds, [], rfl, ⟨hne, 0, by simp⟩, hzero.symm⟩
  split
  · rename_i hlt
    refine ⟨ds.take (ds.length - scale), ds.drop (ds.length - scale), ?_, ⟨?_, 0, by simp⟩, ?_⟩
    · rw [mantissa, if_neg]
      simp
      omega
    · simp [hne]
      omega
    · rw [List.length_drop]
      omega
  · refine ⟨['0'], List.replicate (scale - ds.length) '0' ++ ds, ?_, ⟨by simp, scale - ds.length + 1, ?_⟩, ?_⟩
    · rw [mantissa, if_neg (by simp [hne])]
      simp
    · simp [List.replicate_succ]
    · simp
      omega

theorem scientificNumeral_eq {ds : List Char} (hne : ds ≠ []) (e : Int) :
    scientificNumeral ds e = mantissa (ds.take 1) (ds.drop 1) ++ 'E' :: signedExponent e ∧
      Lays ds (ds.take 1) (ds.drop 1) := by
  refine ⟨?_, by simp [hne], 0, List.take_append_drop 1 ds⟩
  unfold scientificNumeral mantissa
  simp only [List.drop_eq_nil_iff]
  split <;> simp

theorem Lays.isDigit {ds whole fraction : List Char} (h : Lays ds whole fraction)
    (hds : ∀ c ∈ ds, c.isDigit = true) : ∀ c ∈ whole ++ fraction, c.isDigit = true := by
  obtain ⟨zeros, hdigits⟩ := h.digits
  intro c hc
  rw [hdigits, List.mem_append] at hc
  rcases hc with hzero | hmem
  · rw [List.eq_of_mem_replicate hzero]
    rfl
  · exact hds c hmem

theorem Lays.value {ds whole fraction : List Char} (h : Lays ds whole fraction) :
    Nat.ofDigitChars 10 (whole ++ fraction) 0 = Nat.ofDigitChars 10 ds 0 := by
  obtain ⟨zeros, hdigits⟩ := h.digits
  rw [hdigits, Nat.ofDigitChars_append, Nat.ofDigitChars_replicate_zero, Nat.mul_zero]

theorem mem_mantissa {whole fraction : List Char} {c : Char} (h : c ∈ mantissa whole fraction) :
    c = '.' ∨ c ∈ whole ++ fraction := by
  unfold mantissa at h
  split at h
  · exact .inr (List.mem_append_left fraction h)
  · simp only [List.mem_append, List.mem_cons] at h ⊢
    tauto

/-! ## Reading a layout -/

section

variable {ds whole fraction : List Char} (hds : ∀ c ∈ ds, c.isDigit = true)
  (h : Lays ds whole fraction) (negative : Bool)
include hds h

theorem mem_signed_mantissa {c : Char} (hc : c ∈ signed negative (mantissa whole fraction)) :
    c = '-' ∨ c = '.' ∨ c.isDigit = true := by
  rcases mem_signed hc with hminus | hmem
  · exact .inl hminus
  rcases mem_mantissa hmem with hpoint | hdigit
  · exact .inr (.inl hpoint)
  · exact .inr (.inr (h.isDigit hds c hdigit))

theorem splitPoint_mantissa :
    splitPoint (signed negative (mantissa whole fraction)) = (signed negative whole, fraction) := by
  have hwhole : ∀ c ∈ signed negative whole, (c != '.') = true := by
    intro c hc
    rw [bne_iff_ne]
    rcases mem_signed hc with rfl | hmem
    · decide
    · exact ne_of_isDigit (h.isDigit hds c (List.mem_append_left fraction hmem)) rfl
  unfold splitPoint mantissa
  by_cases hnil : fraction = []
  · have hspan := span_run (r := []) hwhole (by simp)
    rw [List.append_nil] at hspan
    rw [if_pos hnil, hspan, hnil]
  · rw [if_neg hnil, signed_append, span_run hwhole (by simp)]

theorem splitExponent_mantissa :
    splitExponent (signed negative (mantissa whole fraction)) =
        some (signed negative (mantissa whole fraction), 0) ∧
      ∀ cs, splitExponent (signed negative (mantissa whole fraction) ++ 'E' :: cs) =
        (readInt32? cs).map fun e => (signed negative (mantissa whole fraction), e) := by
  have hmantissa : ∀ c ∈ signed negative (mantissa whole fraction), (!isExponentMark c) = true := by
    intro c hc
    rcases mem_signed_mantissa hds h negative hc with rfl | rfl | hdigit
    · decide
    · decide
    · simp [isExponentMark, ne_of_isDigit hdigit (d := 'e') rfl, ne_of_isDigit hdigit (d := 'E') rfl]
  unfold splitExponent
  constructor
  · have hspan := span_run (r := []) hmantissa (by simp)
    rw [List.append_nil] at hspan
    rw [hspan]
  · intro cs
    rw [span_run hmantissa (by simp [isExponentMark])]

theorem signed_not_bare :
    (signed negative whole == [] || signed negative whole == ['-'] || signed negative whole == ['+']) =
      false := by
  obtain ⟨c, rest, rfl⟩ := List.exists_cons_of_ne_nil h.whole_ne_nil
  have hc : c.isDigit = true := h.isDigit hds c (by simp)
  cases negative with
  | true => simp [signed]
  | false => simp [signed, ne_of_isDigit hc (d := '-') rfl, ne_of_isDigit hc (d := '+') rfl]

theorem ofNumeral?_of_split (hlength : fraction.length ≤ 2147483647) {cs : List Char}
    {exponent : Int32}
    (hsplit : splitExponent cs = some (signed negative (mantissa whole fraction), exponent)) :
    ofNumeral? cs = (subtract32? fraction.length exponent.toInt).map fun scale =>
      ⟨Varint.ofSignAndLimbs negative (Varint.limbsOfDigits (whole ++ fraction)), scale⟩ := by
  have hdigits := h.isDigit hds
  have hfraction : fraction.all Char.isDigit = true :=
    List.all_eq_true.mpr fun c hc => hdigits c (List.mem_append_right whole hc)
  have hne : whole ++ fraction ≠ [] := by simp [h.whole_ne_nil]
  have hblank : ∀ c ∈ signed negative (whole ++ fraction), isBlank c = false := by
    intro c hc
    rcases mem_signed hc with rfl | hmem
    · decide
    · exact isBlank_of_isDigit (hdigits c hmem)
  have hunscaled : Varint.ofNumeral? (trimChars (signed negative whole ++ fraction)) =
      some (Varint.ofSignAndLimbs negative (Varint.limbsOfDigits (whole ++ fraction))) := by
    rw [← signed_append, trimChars_of_not_blank hblank]
    exact Varint.ofNumeral?_signed negative hne hdigits
  unfold ofNumeral?
  rw [hsplit]
  simp only [Option.bind_eq_bind, Option.bind_some, splitPoint_mantissa hds h negative, hfraction,
    signed_not_bare hds h negative, Bool.not_true, Bool.false_and, Bool.or_false, Bool.false_eq_true,
    if_false, Nat.not_lt.mpr hlength, hunscaled]
  cases subtract32? fraction.length exponent.toInt with
  | none => rfl
  | some scale => rfl

theorem isBlank_mantissa : ∀ c ∈ signed negative (mantissa whole fraction), isBlank c = false := by
  intro c hc
  rcases mem_signed_mantissa hds h negative hc with rfl | rfl | hdigit
  · decide
  · decide
  · exact isBlank_of_isDigit hdigit

end

theorem ofNumeral?_of_no_split {cs : List Char} (hsplit : splitExponent cs = none) :
    ofNumeral? cs = none := by
  unfold ofNumeral?
  rw [hsplit]
  rfl

/-! ## Exponents and scales -/

theorem readInt32?_signedExponent (e : Int) :
    readInt32? (signedExponent e) =
      if -2147483648 ≤ e ∧ e ≤ 2147483647 then some (Int32.ofInt e) else none := by
  unfold readInt32? signedExponent
  by_cases hsign : 0 ≤ e
  · rw [if_pos hsign, readInteger_plus]
    by_cases hsmall : e.natAbs ≤ 2147483647
    · rw [if_pos hsmall, if_pos (by omega), Int.natAbs_of_nonneg hsign]
    · rw [if_neg hsmall, if_neg (by omega)]
  · rw [if_neg hsign, readInteger_minus]
    by_cases hsmall : e.natAbs ≤ 2147483647 + 1
    · rw [if_pos hsmall, if_pos (by omega)]
      simp only [Option.some.injEq]
      congr 1
      omega
    · rw [if_neg hsmall, if_neg (by omega)]

theorem isBlank_signedExponent (e : Int) : ∀ c ∈ 'E' :: signedExponent e, isBlank c = false := by
  intro c hc
  unfold signedExponent at hc
  rcases List.mem_cons.mp hc with rfl | hc
  · decide
  rcases List.mem_cons.mp hc with rfl | hc
  · split <;> decide
  · exact isBlank_of_isDigit (isDigit_digits c hc)

theorem isPlain_iff {digitCount : Nat} {scale : Int32} :
    isPlain digitCount scale = true ↔
      0 ≤ scale.toInt ∧ -6 ≤ (digitCount : Int) - 1 - scale.toInt := by
  rw [isPlain, adjustedExponent, Bool.and_eq_true, decide_eq_true_eq, decide_eq_true_eq]

theorem subtract32?_eq {a b : Int} {s : Int32} (h : a - b = s.toInt) : subtract32? a b = some s := by
  have hle := s.le_toInt
  have hlt := s.toInt_lt
  rw [subtract32?, if_pos (by omega), h, Int32.ofInt_toInt]

/-! ## Reading the text -/

section

variable (d : Decimal)

theorem digits_magnitude : ∀ c ∈ Varint.magnitudeDigits d.unscaled.magnitude, c.isDigit = true := by
  rw [Varint.magnitudeDigits_eq]
  exact isDigit_digits

theorem magnitudeDigits_ne_nil : Varint.magnitudeDigits d.unscaled.magnitude ≠ [] := by
  rw [Varint.magnitudeDigits_eq]
  exact digits_ne_nil _

theorem unscaled_of_lays {whole fraction : List Char}
    (h : Lays (Varint.magnitudeDigits d.unscaled.magnitude) whole fraction) :
    Varint.ofSignAndLimbs d.unscaled.negative (Varint.limbsOfDigits (whole ++ fraction)) =
      d.unscaled := by
  apply Varint.ofSignAndLimbs_eq
  rw [Varint.toNat_limbsOfDigits, h.value, Varint.magnitudeDigits_eq, ofDigitChars_digits]

theorem parse_text_eq (hblank : ∀ c ∈ d.numeral, isBlank c = false) :
    parse d.text =
      (ofNumeral? d.numeral).elim (.error (.decode "decimal" (.notDecimal d.text))) .ok := by
  unfold parse
  rw [text, String.toList_ofList, trimChars_of_not_blank hblank]
  cases ofNumeral? d.numeral <;> rfl

theorem numeral_plain (hplain : isPlain d.unscaled.digitCount d.scale = true) :
    ∃ whole fraction, Lays (Varint.magnitudeDigits d.unscaled.magnitude) whole fraction ∧
      fraction.length = d.scale.toInt.toNat ∧
      d.numeral = signed d.unscaled.negative (mantissa whole fraction) := by
  obtain ⟨whole, fraction, hlayout, hlays, hlength⟩ :=
    plainNumeral_eq (magnitudeDigits_ne_nil d) d.scale.toInt.toNat
  refine ⟨whole, fraction, hlays, hlength, ?_⟩
  unfold Varint.digitCount at hplain
  unfold numeral magnitudeNumeral
  rw [hplain, ← hlayout]
  rfl

theorem parse_plain (hplain : isPlain d.unscaled.digitCount d.scale = true) : parse d.text = .ok d := by
  have hds := digits_magnitude d
  obtain ⟨whole, fraction, hlays, hlength, hnumeral⟩ := numeral_plain d hplain
  obtain ⟨hscale, -⟩ := isPlain_iff.mp hplain
  have hlt := d.scale.toInt_lt
  have hread : ofNumeral? d.numeral = some d := by
    rw [hnumeral, ofNumeral?_of_split hds hlays _ (by omega) (splitExponent_mantissa hds hlays _).1,
      unscaled_of_lays d hlays, subtract32?_eq (s := d.scale) (by simp; omega)]
    rfl
  rw [parse_text_eq, hread]
  · rfl
  · rw [hnumeral]
    exact isBlank_mantissa hds hlays _

theorem numeral_scientific (hplain : isPlain d.unscaled.digitCount d.scale = false) :
    ∃ whole fraction, Lays (Varint.magnitudeDigits d.unscaled.magnitude) whole fraction ∧
      fraction.length = d.unscaled.digitCount - 1 ∧
      d.numeral = signed d.unscaled.negative (mantissa whole fraction) ++
        'E' :: signedExponent (adjustedExponent d.unscaled.digitCount d.scale) := by
  obtain ⟨hlayout, hlays⟩ := scientificNumeral_eq (magnitudeDigits_ne_nil d)
    (adjustedExponent d.unscaled.digitCount d.scale)
  refine ⟨_, _, hlays, List.length_drop, ?_⟩
  rw [← signed_append, ← hlayout]
  unfold Varint.digitCount at hplain ⊢
  unfold numeral magnitudeNumeral
  rw [hplain]
  rfl

theorem parse_scientific (hplain : isPlain d.unscaled.digitCount d.scale = false)
    (hdigits : d.unscaled.digitCount ≤ 2147483648) :
    parse d.text = if adjustedExponent d.unscaled.digitCount d.scale ≤ 2147483647 then .ok d
      else .error (.decode "decimal" (.notDecimal d.text)) := by
  have hds := digits_magnitude d
  have hpos : 0 < d.unscaled.digitCount := List.length_pos_iff.mpr (magnitudeDigits_ne_nil d)
  obtain ⟨whole, fraction, hlays, hlength, hnumeral⟩ := numeral_scientific d hplain
  have hblank : ∀ c ∈ d.numeral, isBlank c = false := by
    rw [hnumeral]
    intro c hc
    rcases List.mem_append.mp hc with hmantissa | hexponent
    · exact isBlank_mantissa hds hlays _ c hmantissa
    · exact isBlank_signedExponent _ c hexponent
  have hsplit := (splitExponent_mantissa hds hlays d.unscaled.negative).2
    (signedExponent (adjustedExponent d.unscaled.digitCount d.scale))
  rw [← hnumeral, readInt32?_signedExponent] at hsplit
  have hlt := d.scale.toInt_lt
  have hge : -2147483648 ≤ adjustedExponent d.unscaled.digitCount d.scale := by
    unfold adjustedExponent
    omega
  rw [parse_text_eq d hblank]
  split
  · rename_i hsmall
    rw [if_pos ⟨hge, hsmall⟩] at hsplit
    have hexponent : (Int32.ofInt (adjustedExponent d.unscaled.digitCount d.scale)).toInt =
        adjustedExponent d.unscaled.digitCount d.scale :=
      Int32.toInt_ofInt_of_le (by omega) (by omega)
    have hdifference : (fraction.length : Int) -
        (Int32.ofInt (adjustedExponent d.unscaled.digitCount d.scale)).toInt = d.scale.toInt := by
      rw [hexponent, hlength]
      unfold adjustedExponent
      omega
    rw [ofNumeral?_of_split hds hlays _ (by omega) hsplit, unscaled_of_lays d hlays,
      subtract32?_eq hdifference]
    rfl
  · rename_i hlarge
    rw [if_neg (by omega)] at hsplit
    rw [ofNumeral?_of_no_split hsplit]
    rfl

theorem adjustedExponent_plain (hplain : isPlain d.unscaled.digitCount d.scale = true)
    (hdigits : d.unscaled.digitCount ≤ 2147483648) :
    adjustedExponent d.unscaled.digitCount d.scale ≤ 2147483647 := by
  obtain ⟨hscale, -⟩ := isPlain_iff.mp hplain
  unfold adjustedExponent
  omega

end

/-- The text of a decimal is read as that decimal, number and scale, as long as the exponent of its
first digit has no more than 32 bits. Otherwise it is refused, and no text is ever read as another
decimal. -/
theorem parse_text (d : Decimal) (hdigits : d.unscaled.digitCount ≤ 2147483648) :
    (parse d.text = if adjustedExponent d.unscaled.digitCount d.scale ≤ 2147483647 then .ok d
      else .error (.decode "decimal" (.notDecimal d.text))) ∧
      ∀ e, parse d.text = .ok e → e = d := by
  have hread : parse d.text = if adjustedExponent d.unscaled.digitCount d.scale ≤ 2147483647
      then .ok d else .error (.decode "decimal" (.notDecimal d.text)) := by
    cases hplain : isPlain d.unscaled.digitCount d.scale with
    | true => rw [parse_plain d hplain, if_pos (adjustedExponent_plain d hplain hdigits)]
    | false => exact parse_scientific d hplain hdigits
  refine ⟨hread, ?_⟩
  intro e he
  rw [hread] at he
  split at he
  · cases he
    rfl
  · cases he

/-- At the least scale there is, the exponent of a single digit has more than 32 bits. -/
theorem parse_text_least_scale :
    (Varint.zero.digitCount ≤ 2147483648 ∧
      parse (Decimal.mk Varint.zero (-2147483648)).text =
        .error (.decode "decimal" (.notDecimal "0E+2147483648"))) ∧
      (Varint.ofInt64 (-1234)).digitCount ≤ 2147483648 ∧
        parse (Decimal.mk (Varint.ofInt64 (-1234)) (-2147483644)).text =
          .ok (Decimal.mk (Varint.ofInt64 (-1234)) (-2147483644)) := by
  have hzero : Varint.zero.digitCount ≤ 2147483648 := by cbv
  have hnumber : (Varint.ofInt64 (-1234)).digitCount ≤ 2147483648 := by cbv
  have htext : (Decimal.mk Varint.zero (-2147483648)).text = "0E+2147483648" := by cbv
  have hlarge : adjustedExponent Varint.zero.digitCount (-2147483648) = 2147483648 := by cbv
  have hsmall : adjustedExponent (Varint.ofInt64 (-1234)).digitCount (-2147483644) = 2147483647 := by
    cbv
  refine ⟨⟨hzero, ?_⟩, hnumber, ?_⟩
  · rw [(parse_text ⟨Varint.zero, -2147483648⟩ hzero).1, hlarge, htext]
    rfl
  · rw [(parse_text ⟨Varint.ofInt64 (-1234), -2147483644⟩ hnumber).1, hsmall]
    rfl

end WideRow.Decimal
