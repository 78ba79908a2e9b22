import WideRow.Proofs.DecimalText
import WideRow.Proofs.Varint

/-!
# The length of the text of decimals

The scale of a decimal may come from anywhere, so its text must not grow with it. Zeros are put
before the digits in plain notation alone, which is used only where five are enough, and an exponent
has ten digits at most.
-/

namespace WideRow.Decimal

open Text

/-! ## Lengths of layouts -/

theorem length_signed_le (negative : Bool) (cs : List Char) :
    (signed negative cs).length ≤ cs.length + 1 := by
  cases negative <;> simp [signed]

theorem length_plainNumeral_le (ds : List Char) (scale : Nat) (h : scale ≤ ds.length + 5) :
    (plainNumeral ds scale).length ≤ ds.length + 7 := by
  unfold plainNumeral
  split
  · omega
  split
  · simp only [List.length_append, List.length_cons, List.length_take, List.length_drop]
    omega
  · simp only [List.length_append, List.length_cons, List.length_replicate]
    omega

theorem length_signedExponent_le {e : Int} (h : e.natAbs < 10 ^ 10) :
    (signedExponent e).length ≤ 11 := by
  have := (Nat.length_toDigits_le_iff (by decide) (by decide)).mpr h
  simp only [signedExponent, digits, List.length_cons]
  omega

theorem length_scientificNumeral_le (ds : List Char) {e : Int} (h : e.natAbs < 10 ^ 10) :
    (scientificNumeral ds e).length ≤ ds.length + 13 := by
  have := length_signedExponent_le h
  unfold scientificNumeral
  split <;> simp only [List.length_append, List.length_cons, List.length_take, List.length_drop,
    List.length_nil] <;> omega

theorem length_numeral_le (d : Decimal) (hdigits : d.unscaled.digitCount < 2 ^ 31) :
    d.numeral.length ≤ d.unscaled.digitCount + 14 := by
  have hsigned := length_signed_le d.unscaled.negative
    (magnitudeNumeral (Varint.magnitudeDigits d.unscaled.magnitude) d.scale)
  have hlow := d.scale.le_toInt
  have hhigh := d.scale.toInt_lt
  suffices (magnitudeNumeral (Varint.magnitudeDigits d.unscaled.magnitude) d.scale).length ≤
      d.unscaled.digitCount + 13 from by
    change (signed _ _).length ≤ _
    omega
  unfold Varint.digitCount at hdigits ⊢
  generalize Varint.magnitudeDigits d.unscaled.magnitude = ds at hdigits
  unfold magnitudeNumeral
  split
  · rename_i hplain
    obtain ⟨hscale, hplace⟩ := isPlain_iff.mp hplain
    have := length_plainNumeral_le ds d.scale.toInt.toNat (by omega)
    omega
  · have hexponent : (adjustedExponent ds.length d.scale).natAbs < 10 ^ 10 := by
      unfold adjustedExponent
      omega
    exact length_scientificNumeral_le ds hexponent

/-! ## Notations -/

/-- A sign, digits, and more digits after a point. -/
def IsPlainNotation (cs : List Char) : Prop :=
  ∃ negative whole fraction, whole ≠ [] ∧ (∀ c ∈ whole ++ fraction, c.isDigit = true) ∧
    cs = signed negative (mantissa whole fraction)

theorem isPlainNotation_iff (d : Decimal) :
    IsPlainNotation d.numeral ↔ isPlain d.unscaled.digitCount d.scale = true := by
  have hds := digits_magnitude d
  cases hplain : isPlain d.unscaled.digitCount d.scale with
  | true =>
    obtain ⟨whole, fraction, hlays, -, hnumeral⟩ := numeral_plain d hplain
    exact iff_of_true ⟨_, whole, fraction, hlays.whole_ne_nil, hlays.isDigit hds, hnumeral⟩ rfl
  | false =>
    obtain ⟨whole, fraction, -, -, hnumeral⟩ := numeral_scientific d hplain
    have hmark : 'E' ∈ d.numeral := by simp [hnumeral]
    refine iff_of_false ?_ (by simp)
    rintro ⟨negative, whole, fraction, -, hdigits, heq⟩
    rw [heq] at hmark
    rcases mem_signed hmark with hminus | hmantissa
    · cases hminus
    rcases mem_mantissa hmantissa with hpoint | hdigit
    · cases hpoint
    · exact absurd (hdigits 'E' hdigit) (by decide)

/-! ## Decimals from the wire -/

theorem digitCount_eq (v : Varint) : v.digitCount = (digits v.toInt.natAbs).length := by
  rw [Varint.digitCount, Varint.magnitudeDigits_eq, Varint.natAbs_toInt]

theorem digitCount_ofSignedBytes_le {b : Bytes} (hne : b ≠ []) :
    (Varint.ofSignedBytes b).digitCount ≤ 3 * b.length := by
  have hlength : 0 < b.length := List.length_pos_iff.mpr hne
  obtain ⟨hlow, hhigh⟩ := Bytes.toInt_bounds b
  have hpow : 256 ^ b.length < 10 ^ (3 * b.length) := by
    rw [Nat.pow_mul]
    exact Nat.pow_lt_pow_left (by decide) (by omega)
  have hmagnitude : (Bytes.toInt b).natAbs < 10 ^ (3 * b.length) := by
    have : ((Bytes.toInt b).natAbs : Int) ≤ 256 ^ b.length := by omega
    have : (Bytes.toInt b).natAbs ≤ 256 ^ b.length := by exact_mod_cast this
    omega
  rw [digitCount_eq, Varint.toInt_ofSignedBytes]
  exact (Nat.length_toDigits_le_iff (by decide) (by omega)).mpr hmagnitude

theorem digitCount_ofBytes {b : Bytes} {d : Decimal} (h : ofBytes b = .ok d) :
    d.unscaled.digitCount + 12 ≤ 3 * b.length := by
  unfold ofBytes at h
  split at h
  · cases h
  · rename_i hlength
    cases h
    have hdrop : (b.drop 4).length = b.length - 4 := List.length_drop
    have := digitCount_ofSignedBytes_le (b := b.drop 4) (List.ne_nil_of_length_pos (by omega))
    change (Varint.ofSignedBytes (b.drop 4)).digitCount + 12 ≤ _
    omega

/-- The text of a decimal has at most fourteen characters more than its number has digits, whatever
the scale is. Plain notation is used exactly if the scale is not negative and the first digit stands
at `10 ^ -6` or above. So bytes from the wire have a text of three characters for each, and two more,
at most. -/
theorem text_stays_short (d : Decimal) :
    let digitCount := (digits d.unscaled.toInt.natAbs).length
    (digitCount < 2 ^ 31 → d.text.length ≤ digitCount + 14) ∧
      (IsPlainNotation d.text.toList ↔
        0 ≤ d.scale.toInt ∧ -6 ≤ (digitCount : Int) - 1 - d.scale.toInt) ∧
      ∀ b, ofBytes b = .ok d → b.length < 2 ^ 29 → d.text.length ≤ 3 * b.length + 2 := by
  intro digitCount
  have hcount : digitCount = d.unscaled.digitCount := (digitCount_eq d.unscaled).symm
  have hlength : d.text.length = d.numeral.length := String.length_ofList
  rw [hcount, hlength]
  refine ⟨length_numeral_le d, ?_, ?_⟩
  · rw [text, String.toList_ofList, isPlainNotation_iff, isPlain_iff]
  · intro b hb hsmall
    have hdigits := digitCount_ofBytes hb
    have := length_numeral_le d (by omega)
    omega

/-- At the least scale a text is as long as it may be; five bytes with a great scale have a short
one. -/
theorem text_stays_short_extreme_scales :
    let d : Decimal := ⟨Varint.ofInt64 (-12), -2147483648⟩
    let e : Decimal := ⟨Varint.ofInt64 1, 100000000⟩
    let b : Bytes := [0x05, 0xF5, 0xE1, 0x00, 0x01]
    ((digits d.unscaled.toInt.natAbs).length = 2 ∧ d.text = "-1.2E+2147483649" ∧
      d.text.length ≤ 2 + 14) ∧
      ofBytes b = .ok e ∧ b.length < 2 ^ 29 ∧ e.text = "1E-100000000" ∧ e.text.length ≤ 17 := by
  intro d e b
  have hd : (digits d.unscaled.toInt.natAbs).length = 2 := by cbv
  have he : ofBytes b = .ok e := by cbv
  obtain ⟨hshort, -⟩ := text_stays_short d
  obtain ⟨-, -, hwire⟩ := text_stays_short e
  rw [hd] at hshort
  exact ⟨⟨hd, by cbv, hshort (by decide)⟩, he, by decide, by cbv, hwire b he (by decide)⟩

end WideRow.Decimal
