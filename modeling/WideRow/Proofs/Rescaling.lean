import Mathlib.Algebra.Field.Rat
import Mathlib.Algebra.Order.Field.Basic
import Mathlib.Algebra.Order.Ring.Rat
import Mathlib.Data.Nat.Digits.Lemmas
import Mathlib.Tactic.NormNum
import Mathlib.Tactic.Ring
import WideRow.Number.Decimal
import WideRow.Proofs.Numeral

/-!
# Rescaling decimals

A decimal with another scale is the same number written with more or fewer zeros at its end. Nothing
is rounded: a scale that would drop another digit is refused, and so is one that would append too
many.
-/

namespace WideRow.Decimal

/-! ## The number -/

/-- The number that a decimal stands for. -/
def value (d : Decimal) : ℚ :=
  d.unscaled.toInt * 10 ^ (-d.scale.toInt)

theorem value_eq_iff {d e : Decimal} {k : Nat} (h : e.scale.toInt = d.scale.toInt + k) :
    e.value = d.value ↔ e.unscaled.toInt = d.unscaled.toInt * 10 ^ k := by
  have hten : (10 : ℚ) ≠ 0 := by norm_num
  have hpow : (10 : ℚ) ^ (-d.scale.toInt) = 10 ^ k * 10 ^ (-e.scale.toInt) := by
    rw [← zpow_natCast, ← zpow_add₀ hten]
    congr 1
    omega
  unfold value
  rw [hpow, ← mul_assoc, mul_left_inj' (zpow_ne_zero _ hten)]
  exact_mod_cast Iff.rfl

theorem eq_of_value {d e : Decimal} (hscale : e.scale = d.scale) (hvalue : e.value = d.value) :
    e = d := by
  have hunscaled : e.unscaled = d.unscaled := by
    apply Varint.toInt_injective
    simpa using (value_eq_iff (k := 0) (by simp [hscale])).mp hvalue
  cases d
  cases e
  simp_all

theorem value_neg_iff (d : Decimal) : d.value < 0 ↔ d.unscaled.negative = true := by
  have hpow : (0 : ℚ) < 10 ^ (-d.scale.toInt) := zpow_pos (by norm_num) _
  unfold value
  rw [Rat.mul_neg_iff_of_pos_right hpow, Int.cast_lt_zero, Varint.negative_iff]

theorem negative_of_value {d e : Decimal} (h : e.value = d.value) :
    e.unscaled.negative = d.unscaled.negative := by
  rw [Bool.eq_iff_iff, ← value_neg_iff, ← value_neg_iff, h]

/-! ## Signed limbs -/

theorem toInt_ofSignAndLimbs_mul (negative : Bool) {l m : Limbs} {n : Nat}
    (h : Limbs.toNat m = Limbs.toNat l * n) :
    (Varint.ofSignAndLimbs negative m).toInt = (Varint.ofSignAndLimbs negative l).toInt * n := by
  rw [Varint.toInt_ofSignAndLimbs, Varint.toInt_ofSignAndLimbs, h]
  cases negative <;> simp

theorem pow_dvd_toInt_iff (v : Varint) (k : Nat) :
    (10 : Int) ^ k ∣ v.toInt ↔ 10 ^ k ∣ Limbs.toNat v.magnitude := by
  rw [← Varint.natAbs_toInt, ← Int.natCast_dvd]
  simp

/-! ## Appending digits -/

theorem toNat_appendDigits (l : Limbs) (digits : Nat) :
    Limbs.toNat (appendDigits l digits) = Limbs.toNat l * 10 ^ digits := by
  induction l, digits using appendDigits.induct with
  | case1 l =>
    rw [appendDigits]
    simp
  | case2 l digits h ih =>
    have hfits : 10 ^ min digits 9 < 4294967296 :=
      Nat.lt_of_le_of_lt (Nat.pow_le_pow_right (by decide) (Nat.min_le_right digits 9)) (by decide)
    have hfactor : (UInt32.ofNat (10 ^ min digits 9)).toNat = 10 ^ min digits 9 :=
      UInt32.toNat_ofNat_of_lt hfits
    rw [appendDigits, if_neg h, ih, Limbs.toNat_mulAdd, hfactor, UInt32.toNat_zero, Nat.add_zero,
      Nat.mul_assoc, ← Nat.pow_add, Nat.add_sub_cancel' (Nat.min_le_left digits 9)]

/-! ## Dropping zeros -/

theorem dropZeros_succ (l : Limbs) (digits : Nat) :
    dropZeros l (digits + 1) =
      if (Limbs.divRem l 10).2 = 0 then dropZeros (Limbs.divRem l 10).1 digits else none := rfl

theorem toNat_dropZeros {l m : Limbs} {digits : Nat} (h : dropZeros l digits = some m) :
    Limbs.toNat l = Limbs.toNat m * 10 ^ digits := by
  induction digits generalizing l with
  | zero =>
    cases h
    simp
  | succ digits ih =>
    obtain ⟨-, heq⟩ := Limbs.divRem_spec l (show 0 < UInt32.toNat 10 by decide)
    rw [dropZeros_succ] at h
    split at h
    · rename_i hzero
      rw [heq, hzero, ih h, UInt32.toNat_zero, Nat.add_zero, Nat.mul_assoc, Nat.pow_succ]
      rfl
    · cases h

theorem dropZeros_of_dvd {l : Limbs} {digits : Nat} (h : 10 ^ digits ∣ Limbs.toNat l) :
    ∃ m, dropZeros l digits = some m := by
  induction digits generalizing l with
  | zero => exact ⟨l, rfl⟩
  | succ digits ih =>
    obtain ⟨hlt, heq⟩ := Limbs.divRem_spec l (show 0 < UInt32.toNat 10 by decide)
    rw [show UInt32.toNat 10 = 10 from rfl] at hlt heq
    obtain ⟨n, hn⟩ := h
    rw [Nat.pow_succ, Nat.mul_right_comm] at hn
    have hzero : (Limbs.divRem l 10).2 = 0 := UInt32.toNat_inj.mp (by rw [UInt32.toNat_zero]; omega)
    have hquotient : 10 ^ digits ∣ Limbs.toNat (Limbs.divRem l 10).1 := ⟨n, by omega⟩
    rw [dropZeros_succ, if_pos hzero]
    exact ih hquotient

theorem lt_digitCount {v : Varint} (hne : v.toInt ≠ 0) {k : Nat}
    (hdvd : 10 ^ k ∣ Limbs.toNat v.magnitude) : k < v.digitCount := by
  have hmagnitude : v.magnitude ≠ [] := by
    intro hnil
    exact hne ((Varint.isZero_iff v).mp (by simp [Varint.isZero, hnil]))
  have hpos := Limbs.toNat_pos v.isTrimmed hmagnitude
  have hle : 10 ^ k ≤ Limbs.toNat v.magnitude := Nat.le_of_dvd hpos hdvd
  unfold Varint.digitCount
  rw [Varint.magnitudeDigits_eq, Text.digits]
  by_contra hfew
  have hshort : (Nat.toDigits 10 (Limbs.toNat v.magnitude)).length ≤ k := by omega
  have hk : 0 < k := Nat.lt_of_lt_of_le (List.length_pos_iff.mpr Nat.toDigits_ne_nil) hshort
  have := (Nat.length_toDigits_le_iff (by decide) hk).mp hshort
  omega

/-! ## The scales that a decimal reaches -/

/-- What lets a decimal take another scale: it has it already, it is zero, few enough digits are
appended, or only zeros are dropped. -/
inductive Reaches (d : Decimal) (scale : Int32) : Prop where
  | same (h : scale = d.scale)
  | zero (h : d.unscaled.toInt = 0)
  | append (k : Nat) (h : scale.toInt = d.scale.toInt + k) (hk : k ≤ 4096)
  | drop (k : Nat) (h : d.scale.toInt = scale.toInt + k) (hdvd : (10 : Int) ^ k ∣ d.unscaled.toInt)

theorem pos_of_ne {s t : Int32} {k : Nat} (h : s.toInt = t.toInt + k) (hne : s ≠ t) : 0 < k := by
  by_contra hk
  exact hne (Int32.toInt_inj.mp (by omega))

section

variable {d : Decimal} {scale : Int32}

theorem withScale_same : d.withScale d.scale = .ok d := by
  unfold withScale
  rw [if_pos rfl]

theorem withScale_zero (hne : scale ≠ d.scale) (hzero : d.unscaled.toInt = 0) :
    d.withScale scale = .ok ⟨Varint.zero, scale⟩ := by
  unfold withScale
  rw [if_neg hne, if_pos ((Varint.isZero_iff _).mpr hzero)]

theorem withScale_append (hne : scale ≠ d.scale) (hnonzero : d.unscaled.toInt ≠ 0) {k : Nat}
    (h : scale.toInt = d.scale.toInt + k) :
    d.withScale scale =
      if k ≤ 4096 then
        .ok ⟨Varint.ofSignAndLimbs d.unscaled.negative (appendDigits d.unscaled.magnitude k), scale⟩
      else .error (.invalidScale d.scale.toInt scale.toInt) := by
  have hpos := pos_of_ne h hne
  have hchange : scale.toInt - d.scale.toInt = k := by omega
  unfold withScale maxAppendedDigits
  rw [if_neg hne, if_neg (fun hzero => hnonzero ((Varint.isZero_iff _).mp hzero))]
  simp only [hchange, Int.toNat_natCast]
  rw [if_pos (by omega)]
  by_cases hk : k ≤ 4096
  · rw [if_neg (by omega), if_pos hk]
  · rw [if_pos (by omega), if_neg hk]

theorem withScale_drop (hne : scale ≠ d.scale) (hnonzero : d.unscaled.toInt ≠ 0) {k : Nat}
    (h : d.scale.toInt = scale.toInt + k) :
    (∃ l, Limbs.toNat d.unscaled.magnitude = Limbs.toNat l * 10 ^ k ∧
        d.withScale scale = .ok ⟨Varint.ofSignAndLimbs d.unscaled.negative l, scale⟩) ∨
      ¬ 10 ^ k ∣ Limbs.toNat d.unscaled.magnitude ∧
        d.withScale scale = .error (.invalidScale d.scale.toInt scale.toInt) := by
  have hpos := pos_of_ne h (Ne.symm hne)
  have hchange : scale.toInt - d.scale.toInt = -k := by omega
  have hrest : d.withScale scale =
      if d.unscaled.digitCount ≤ k then .error (.invalidScale d.scale.toInt scale.toInt)
      else (dropZeros d.unscaled.magnitude k).elim
        (.error (.invalidScale d.scale.toInt scale.toInt))
        fun l => .ok ⟨Varint.ofSignAndLimbs d.unscaled.negative l, scale⟩ := by
    unfold withScale
    rw [if_neg hne, if_neg (fun hzero => hnonzero ((Varint.isZero_iff _).mp hzero))]
    simp only [hchange, Int.neg_neg, Int.toNat_natCast, Int.ofNat_le]
    rw [if_neg (by omega)]
    cases dropZeros d.unscaled.magnitude k <;> rfl
  rw [hrest]
  by_cases hdvd : 10 ^ k ∣ Limbs.toNat d.unscaled.magnitude
  · obtain ⟨l, hl⟩ := dropZeros_of_dvd hdvd
    -- The digits are more than the zeros, so the early refusal is not for this number.
    have hmore := lt_digitCount hnonzero hdvd
    refine .inl ⟨l, toNat_dropZeros hl, ?_⟩
    rw [if_neg (by omega), hl]
    rfl
  · refine .inr ⟨hdvd, ?_⟩
    split
    · rfl
    · cases hl : dropZeros d.unscaled.magnitude k with
      | none => rfl
      | some l => exact absurd ⟨Limbs.toNat l, by rw [toNat_dropZeros hl, Nat.mul_comm]⟩ hdvd

theorem withScale_of_reaches (h : d.Reaches scale) :
    ∃ e, d.withScale scale = .ok e ∧ e.scale = scale ∧ e.value = d.value := by
  by_cases hsame : scale = d.scale
  · exact ⟨d, by rw [hsame, withScale_same], hsame.symm, rfl⟩
  by_cases hzero : d.unscaled.toInt = 0
  · refine ⟨_, withScale_zero hsame hzero, rfl, ?_⟩
    simp [value, hzero, show Varint.zero.toInt = 0 from rfl]
  have hsigned := Varint.ofSignAndLimbs_eq (v := d.unscaled) rfl
  cases h with
  | same h => exact absurd h hsame
  | zero h => exact absurd h hzero
  | append k h hk =>
    have hgiven := withScale_append hsame hzero h
    rw [if_pos hk] at hgiven
    refine ⟨_, hgiven, rfl, (value_eq_iff h).mpr ?_⟩
    have hmul := toInt_ofSignAndLimbs_mul d.unscaled.negative
      (toNat_appendDigits d.unscaled.magnitude k)
    rw [hsigned] at hmul
    exact_mod_cast hmul
  | drop k h hdvd =>
    rcases withScale_drop hsame hzero h with ⟨l, hl, hgiven⟩ | ⟨hnot, -⟩
    · refine ⟨_, hgiven, rfl, ((value_eq_iff h).mpr ?_).symm⟩
      have hmul := toInt_ofSignAndLimbs_mul d.unscaled.negative hl
      rw [hsigned] at hmul
      exact_mod_cast hmul
    · exact absurd ((pow_dvd_toInt_iff d.unscaled k).mp hdvd) hnot

theorem withScale_of_not_reaches (h : ¬ d.Reaches scale) :
    d.withScale scale = .error (.invalidScale d.scale.toInt scale.toInt) := by
  have hsame : scale ≠ d.scale := fun heq => h (.same heq)
  have hzero : d.unscaled.toInt ≠ 0 := fun heq => h (.zero heq)
  rcases Int.lt_trichotomy d.scale.toInt scale.toInt with hup | heq | hdown
  · obtain ⟨k, hk⟩ := Int.le.dest (Int.le_of_lt hup)
    rw [withScale_append hsame hzero hk.symm, if_neg]
    exact fun hfew => h (.append k hk.symm hfew)
  · exact absurd (Int32.toInt_inj.mp heq.symm) hsame
  · obtain ⟨k, hk⟩ := Int.le.dest (Int.le_of_lt hdown)
    rcases withScale_drop hsame hzero hk.symm with ⟨l, hl, -⟩ | ⟨-, hrefused⟩
    · exact absurd (.drop k hk.symm ((pow_dvd_toInt_iff _ k).mpr ⟨_, by rw [hl, Nat.mul_comm]⟩)) h
    · exact hrefused

theorem withScale_eq_ok_iff {e : Decimal} :
    d.withScale scale = .ok e ↔ d.Reaches scale ∧ e.scale = scale ∧ e.value = d.value := by
  by_cases hreaches : d.Reaches scale
  · obtain ⟨f, hf, hscale, hvalue⟩ := withScale_of_reaches hreaches
    rw [hf]
    constructor
    · intro h
      cases h
      exact ⟨hreaches, hscale, hvalue⟩
    · rintro ⟨-, hscale', hvalue'⟩
      rw [eq_of_value (hscale'.trans hscale.symm) (hvalue'.trans hvalue.symm)]
  · rw [withScale_of_not_reaches hreaches]
    constructor
    · intro h
      cases h
    · exact fun h => absurd h.1 hreaches

end

/-- Rescaling gives the same number at the new scale, with the same sign, whenever that scale is
reached, and refuses every other scale by naming both. Coming back to the old scale gives the very
decimal. -/
theorem withScale_exact (d : Decimal) (scale : Int32) :
    ((∃ e, d.withScale scale = .ok e) ↔ d.Reaches scale) ∧
      (∀ e, d.withScale scale = .ok e →
        e.scale = scale ∧ e.value = d.value ∧ e.unscaled.negative = d.unscaled.negative) ∧
      (¬ d.Reaches scale →
        d.withScale scale = .error (.invalidScale d.scale.toInt scale.toInt)) ∧
      ∀ e f, d.withScale scale = .ok e → e.withScale d.scale = .ok f → f = d := by
  refine ⟨⟨?_, ?_⟩, ?_, withScale_of_not_reaches, ?_⟩
  · rintro ⟨e, he⟩
    exact (withScale_eq_ok_iff.mp he).1
  · intro h
    obtain ⟨e, he, -, -⟩ := withScale_of_reaches h
    exact ⟨e, he⟩
  · intro e he
    obtain ⟨-, hscale, hvalue⟩ := withScale_eq_ok_iff.mp he
    exact ⟨hscale, hvalue, negative_of_value hvalue⟩
  · intro e f he hf
    obtain ⟨-, -, hvalue⟩ := withScale_eq_ok_iff.mp he
    obtain ⟨-, hback, hagain⟩ := withScale_eq_ok_iff.mp hf
    exact eq_of_value hback (hagain.trans hvalue)

/-- The zero of `-1.50` is dropped and comes back, and the digit before it is not dropped. -/
theorem withScale_exact_one_zero :
    (Decimal.mk (Varint.ofInt64 (-150)) 2).withScale 1 = .ok ⟨Varint.ofInt64 (-15), 1⟩ ∧
      (Decimal.mk (Varint.ofInt64 (-15)) 1).value = (Decimal.mk (Varint.ofInt64 (-150)) 2).value ∧
      (∃ f, (Decimal.mk (Varint.ofInt64 (-15)) 1).withScale 2 = .ok f ∧
        f = ⟨Varint.ofInt64 (-150), 2⟩) ∧
      (Decimal.mk (Varint.ofInt64 (-150)) 2).withScale 0 = .error (.invalidScale 2 0) := by
  have hvalue : (Decimal.mk (Varint.ofInt64 (-150)) 2).value =
      (Decimal.mk (Varint.ofInt64 (-15)) 1).value :=
    (value_eq_iff (k := 1) (by decide)).mpr (by decide)
  have hdropped : (Decimal.mk (Varint.ofInt64 (-150)) 2).withScale 1 =
      .ok ⟨Varint.ofInt64 (-15), 1⟩ :=
    withScale_eq_ok_iff.mpr ⟨.drop 1 (by decide) (by decide), rfl, hvalue.symm⟩
  obtain ⟨f, hf⟩ := (withScale_exact ⟨Varint.ofInt64 (-15), 1⟩ 2).1.mpr
    (.append 1 (by decide) (by decide))
  have hrefused : ¬ (Decimal.mk (Varint.ofInt64 (-150)) 2).Reaches 0 := by
    intro h
    cases h with
    | same h => exact absurd h (by decide)
    | zero h => exact absurd h (by decide)
    | append k h =>
      change (0 : Int) = 2 + k at h
      omega
    | drop k h hdvd =>
      change (2 : Int) = 0 + k at h
      have hk : k = 2 := by omega
      rw [hk] at hdvd
      exact absurd hdvd (by decide)
  obtain ⟨-, hsame, hback, hforth⟩ := withScale_exact ⟨Varint.ofInt64 (-150), 2⟩ 1
  exact ⟨hdropped, (hsame _ hdropped).2.1, ⟨f, hf, hforth _ f hdropped hf⟩,
    (withScale_exact ⟨Varint.ofInt64 (-150), 2⟩ 0).2.2.1 hrefused⟩

end WideRow.Decimal
