import Mathlib.Data.Nat.Dist
import Mathlib.Data.Rat.Cast.Order
import Mathlib.Tactic.NormNum.Pow
import Mathlib.Tactic.Ring
import WideRow.Number.Binary

/-!
# Whole numbers as binary values

What it means to round a whole number to the nearest binary value of 64 bits is said apart from how
it is done: no number with 53 significant bits is nearer, and of two that are equally near the one
with an even significand is taken. Both ways of rounding in one step do this.
-/

namespace WideRow

-- Powers are those of the numbers themselves, whatever else is imported.
attribute [local instance (high)] instPowNat

/-! ## The nearest number -/

/-- That a number has no more significant bits than that. -/
def HasBits (bits n : Nat) : Prop :=
  ∃ m e, m < 2 ^ bits ∧ n = m * 2 ^ e

/-- That of the numbers with 53 significant bits none is nearer. If another one is as near, the last
of the 53 bits is zero. -/
structure IsNearest (n r : Nat) : Prop where
  bits : HasBits 53 r
  nearest : ∀ s, HasBits 53 s → Nat.dist n r ≤ Nat.dist n s
  even : ∀ s, HasBits 53 s → s ≠ r → Nat.dist n r = Nat.dist n s → HasBits 52 r

namespace Binary64

/-- That a binary value is a whole number with a sign. -/
def Denotes (x : Binary64) (negative : Bool) (n : Nat) : Prop :=
  ∃ significand exponent, x.classify = .finite negative significand exponent ∧
    (significand : ℚ) * 2 ^ exponent = n

/-- The number that finite values stay below. -/
def bound : Nat := 2 ^ (1024 : Nat)

theorem bound_pos : 0 < bound := by
  unfold bound
  apply Nat.pow_pos
  decide

/-- That a binary value is a whole number rounded once. Past the largest finite value it is
infinite. -/
inductive Rounds (negative : Bool) (n : Nat) (x : Binary64) : Prop
  | finite {r : Nat} (nearest : IsNearest n r) (fits : r < bound) (denotes : x.Denotes negative r)
  | overflow {r : Nat} (nearest : IsNearest n r) (exceeds : bound ≤ r)
      (infinite : x.classify = .infinite negative)

/-! ## Quotients -/

theorem roundQuotient_cases (n d : Nat) :
    (BinaryFormat.roundQuotient n d = n / d ∧ 2 * (n % d) ≤ d ∧
        (2 * (n % d) = d → n / d % 2 = 0)) ∨
      (BinaryFormat.roundQuotient n d = n / d + 1 ∧ d ≤ 2 * (n % d) ∧
        (2 * (n % d) = d → n / d % 2 = 1)) := by
  unfold BinaryFormat.roundQuotient
  dsimp only
  split
  · left
    omega
  split
  · right
    omega
  split
  · rename_i heven
    rw [beq_iff_eq] at heven
    left
    omega
  · rename_i hodd
    rw [beq_iff_eq] at hodd
    right
    omega

/-! ## The last place -/

/-- How many bits of a number are below its first 53. -/
def placeOf (n : Nat) : Nat :=
  Nat.log2 n - 52

def rounded (n : Nat) : Nat :=
  BinaryFormat.roundQuotient n (2 ^ placeOf n) * 2 ^ placeOf n

theorem roundWhole_eq (n : Nat) :
    roundWhole n = if rounded n < bound then some (rounded n) else none := by
  unfold roundWhole bound rounded placeOf
  rfl

theorem quotient_lt (n : Nat) : n / 2 ^ placeOf n < 2 ^ 53 := by
  have hlt : n < 2 ^ (Nat.log2 n + 1) := Nat.lt_log2_self
  rw [Nat.div_lt_iff_lt_mul (Nat.two_pow_pos _), ← pow_add]
  apply lt_of_lt_of_le hlt
  apply Nat.pow_le_pow_right (by omega)
  unfold placeOf
  omega

theorem le_quotient_of_le {n : Nat} (h : 52 ≤ Nat.log2 n) : 2 ^ 52 ≤ n / 2 ^ placeOf n := by
  have hne : n ≠ 0 := by
    rintro rfl
    exact absurd h (by decide)
  rw [Nat.le_div_iff_mul_le (Nat.two_pow_pos _), ← pow_add]
  apply le_trans _ (Nat.log2_self_le hne)
  apply Nat.pow_le_pow_right (by omega)
  unfold placeOf
  omega

theorem le_quotient (n : Nat) : placeOf n = 0 ∨ 2 ^ 52 ≤ n / 2 ^ placeOf n := by
  by_cases h : 52 ≤ Nat.log2 n
  · exact .inr (le_quotient_of_le h)
  · left
    unfold placeOf
    omega

/-! ## The neighbours of a number -/

theorem multiple_or_below {s : Nat} (h : HasBits 53 s) (place : Nat) :
    2 ^ place ∣ s ∨ s < 2 ^ 52 * 2 ^ place := by
  obtain ⟨m, e, hm, rfl⟩ := h
  by_cases hle : place ≤ e
  · exact .inl (dvd_mul_of_dvd_right (pow_dvd_pow 2 hle) m)
  · right
    have hpow : 2 ^ 53 * 2 ^ e ≤ 2 ^ 52 * 2 ^ place := by
      rw [← pow_add, ← pow_add]
      apply Nat.pow_le_pow_right (by omega)
      omega
    exact lt_of_lt_of_le (Nat.mul_lt_mul_of_pos_right hm (Nat.two_pow_pos e)) hpow

theorem le_of_hasBits {n s : Nat} (h : HasBits 53 s) (hle : s ≤ n) :
    s ≤ n / 2 ^ placeOf n * 2 ^ placeOf n := by
  rcases le_quotient n with hplace | hquotient
  · simpa [hplace] using hle
  · rcases multiple_or_below h (placeOf n) with hdvd | hlt
    · obtain ⟨k, rfl⟩ := hdvd
      rw [Nat.mul_comm]
      apply Nat.mul_le_mul_right
      rwa [Nat.le_div_iff_mul_le (Nat.two_pow_pos _), Nat.mul_comm]
    · exact le_of_lt (lt_of_lt_of_le hlt (Nat.mul_le_mul_right _ hquotient))

theorem succ_le_of_hasBits {n s : Nat} (h : HasBits 53 s) (hlt : n < s) :
    (n / 2 ^ placeOf n + 1) * 2 ^ placeOf n ≤ s := by
  rcases le_quotient n with hplace | hquotient
  · simpa [hplace] using Nat.succ_le_of_lt hlt
  · rcases multiple_or_below h (placeOf n) with hdvd | hbelow
    · obtain ⟨k, rfl⟩ := hdvd
      rw [Nat.mul_comm (2 ^ placeOf n) k] at hlt ⊢
      apply Nat.mul_le_mul_right
      exact (Nat.div_lt_iff_lt_mul (Nat.two_pow_pos _)).mpr hlt
    · have hfloor : 2 ^ 52 * 2 ^ placeOf n ≤ n :=
        (Nat.le_div_iff_mul_le (Nat.two_pow_pos _)).mp hquotient
      omega

theorem hasBits_mul_pow {bits m : Nat} (hm : m ≤ 2 ^ bits) (hbits : 0 < bits) (e : Nat) :
    HasBits bits (m * 2 ^ e) := by
  rcases Nat.lt_or_eq_of_le hm with hlt | rfl
  · exact ⟨m, e, hlt, rfl⟩
  · exact ⟨1, bits + e, Nat.one_lt_two_pow (by omega), by rw [one_mul, pow_add]⟩

theorem hasBits_rounded (n : Nat) : HasBits 53 (rounded n) := by
  have hlt := quotient_lt n
  apply hasBits_mul_pow _ (by omega)
  rcases roundQuotient_cases n (2 ^ placeOf n) with ⟨heq, -⟩ | ⟨heq, -⟩ <;> omega

theorem hasBits_rounded_of_tie {n : Nat} (htie : 2 * (n % 2 ^ placeOf n) = 2 ^ placeOf n) :
    HasBits 52 (rounded n) := by
  have hlt := quotient_lt n
  have heven : BinaryFormat.roundQuotient n (2 ^ placeOf n) ≤ 2 ^ 53 ∧
      BinaryFormat.roundQuotient n (2 ^ placeOf n) % 2 = 0 := by
    rcases roundQuotient_cases n (2 ^ placeOf n) with ⟨heq, -, htied⟩ | ⟨heq, -, htied⟩
    · have := htied htie
      omega
    · have := htied htie
      omega
  obtain ⟨half, hhalf⟩ := Nat.dvd_of_mod_eq_zero heven.2
  have hshift : rounded n = half * 2 ^ (placeOf n + 1) := by
    rw [rounded, hhalf, pow_succ]
    ring
  rw [hshift]
  apply hasBits_mul_pow _ (by omega)
  omega

theorem isNearest_rounded (n : Nat) : IsNearest n (rounded n) := by
  have hsplit := Nat.div_add_mod' n (2 ^ placeOf n)
  have hunit := Nat.mod_lt n (Nat.two_pow_pos (placeOf n))
  have hbelow := fun s h => le_of_hasBits (n := n) (s := s) h
  have habove := fun s h => succ_le_of_hasBits (n := n) (s := s) h
  have htied := hasBits_rounded_of_tie (n := n)
  have hneighbour :
      (rounded n = n / 2 ^ placeOf n * 2 ^ placeOf n ∧ 2 * (n % 2 ^ placeOf n) ≤ 2 ^ placeOf n) ∨
        (rounded n = n / 2 ^ placeOf n * 2 ^ placeOf n + 2 ^ placeOf n ∧
          2 ^ placeOf n ≤ 2 * (n % 2 ^ placeOf n)) := by
    unfold rounded
    rcases roundQuotient_cases n (2 ^ placeOf n) with ⟨heq, hhalf, -⟩ | ⟨heq, hhalf, -⟩
    · exact .inl ⟨by rw [heq], hhalf⟩
    · exact .inr ⟨by rw [heq, Nat.succ_mul], hhalf⟩
  simp only [Nat.add_mul, Nat.one_mul] at habove
  generalize n / 2 ^ placeOf n * 2 ^ placeOf n = lower at *
  generalize n % 2 ^ placeOf n = rest at *
  generalize 2 ^ placeOf n = unit at *
  refine ⟨hasBits_rounded n, ?_, ?_⟩
  · intro s hs
    unfold Nat.dist
    rcases Nat.lt_or_ge n s with h | h
    · have := habove s hs h
      omega
    · have := hbelow s hs h
      omega
  · intro s hs hne hdist
    apply htied
    unfold Nat.dist at hdist
    rcases Nat.lt_or_ge n s with h | h
    · have := habove s hs h
      omega
    · have := hbelow s hs h
      omega

theorem rounded_of_hasBits {r : Nat} (h : HasBits 53 r) : rounded r = r := by
  have hnearest := (isNearest_rounded r).nearest r h
  rw [Nat.dist_self, Nat.le_zero] at hnearest
  exact (Nat.eq_of_dist_eq_zero hnearest).symm

theorem not_hasBits_of_odd {m : Nat} (hlow : 2 ^ 52 ≤ m) (hodd : m % 2 = 1) (place : Nat) :
    ¬ HasBits 52 (m * 2 ^ place) := by
  rintro ⟨m', e, hm', heq⟩
  rcases Nat.lt_or_ge place e with hlt | hle
  · obtain ⟨d, rfl⟩ := Nat.exists_eq_add_of_lt hlt
    have hsplit : m' * 2 ^ (place + d + 1) = 2 * (m' * 2 ^ d) * 2 ^ place := by ring
    rw [hsplit] at heq
    have := Nat.eq_of_mul_eq_mul_right (Nat.two_pow_pos place) heq
    omega
  · obtain ⟨d, rfl⟩ := Nat.exists_eq_add_of_le hle
    have hsplit : m * 2 ^ (e + d) = m * 2 ^ d * 2 ^ e := by ring
    rw [hsplit] at heq
    have hvalue := Nat.eq_of_mul_eq_mul_right (Nat.two_pow_pos e) heq
    have := Nat.le_mul_of_pos_right m (Nat.two_pow_pos d)
    omega

theorem eq_rounded {n r : Nat} (h : IsNearest n r) : r = rounded n := by
  by_contra hne
  have hrounded := isNearest_rounded n
  have hdist := le_antisymm (h.nearest _ hrounded.bits) (hrounded.nearest _ h.bits)
  have heven := h.even _ hrounded.bits (Ne.symm hne) hdist
  have heven' := hrounded.even _ h.bits hne hdist.symm
  have hneighbours : HasBits 52 (n / 2 ^ placeOf n * 2 ^ placeOf n) ∧
      HasBits 52 ((n / 2 ^ placeOf n + 1) * 2 ^ placeOf n) := by
    have hfloor := h.nearest _ (hasBits_mul_pow (quotient_lt n).le (by omega) (placeOf n))
    have hceil := h.nearest _ (hasBits_mul_pow (quotient_lt n) (by omega) (placeOf n))
    have hsplit := Nat.div_add_mod' n (2 ^ placeOf n)
    have hunit := Nat.mod_lt n (Nat.two_pow_pos (placeOf n))
    have hbelow := fun s hs => le_of_hasBits (n := n) (s := s) hs
    have habove := fun s hs => succ_le_of_hasBits (n := n) (s := s) hs
    rw [Nat.succ_mul] at *
    unfold Nat.dist at *
    rcases Nat.lt_or_ge n r with hr | hr <;> rcases Nat.lt_or_ge n (rounded n) with hr' | hr'
    · omega
    · have := habove r h.bits hr
      have := hbelow _ hrounded.bits hr'
      have hlower : rounded n = n / 2 ^ placeOf n * 2 ^ placeOf n := by omega
      have hupper : r = n / 2 ^ placeOf n * 2 ^ placeOf n + 2 ^ placeOf n := by omega
      exact ⟨hlower ▸ heven', hupper ▸ heven⟩
    · have := hbelow r h.bits hr
      have := habove _ hrounded.bits hr'
      have hlower : r = n / 2 ^ placeOf n * 2 ^ placeOf n := by omega
      have hupper : rounded n = n / 2 ^ placeOf n * 2 ^ placeOf n + 2 ^ placeOf n := by omega
      exact ⟨hlower ▸ heven, hupper ▸ heven'⟩
    · omega
  rcases le_quotient n with hplace | hquotient
  · have hself : rounded n = n := by
      apply rounded_of_hasBits
      simpa [hplace] using hasBits_mul_pow (quotient_lt n).le (by omega) (placeOf n)
    rw [hself, Nat.dist_self] at hdist
    exact hne ((Nat.eq_of_dist_eq_zero hdist).symm.trans hself.symm)
  · rcases Nat.mod_two_eq_zero_or_one (n / 2 ^ placeOf n) with heven | hodd
    · exact not_hasBits_of_odd (by omega) (by omega) _ hneighbours.2
    · exact not_hasBits_of_odd hquotient hodd _ hneighbours.1

theorem le_rounded {n s : Nat} (h : HasBits 53 s) (hle : s ≤ n) : s ≤ rounded n := by
  apply le_trans (le_of_hasBits h hle)
  apply Nat.mul_le_mul_right
  rcases roundQuotient_cases n (2 ^ placeOf n) with ⟨heq, -⟩ | ⟨heq, -⟩ <;> omega

/-! ## The bits of a value -/

section

open BinaryFormat

theorem topExponent_double : double.topExponent = 2047 := rfl

theorem leastExponent_double : double.leastExponent = -1074 := rfl

theorem infinityBits_double : double.infinityBits = 2047 * 2 ^ 52 := rfl

theorem signBit_double : double.signBit = 2 ^ 63 := rfl

def signed (negative : Bool) (magnitude : Nat) : Nat :=
  (if negative then double.signBit else 0) + magnitude

theorem classify_fields (negative : Bool) {field fraction : Nat} (hfield : field ≤ 2047)
    (hfraction : fraction < 2 ^ 52) :
    (⟨UInt64.ofNat (signed negative (field * 2 ^ 52 + fraction))⟩ : Binary64).classify =
      if field = 2047 then if fraction = 0 then .infinite negative else .notANumber
      else if field = 0 then .finite negative fraction (-1074)
      else .finite negative (2 ^ 52 + fraction) (-1074 + field - 1) := by
  have hbits : signed negative (field * 2 ^ 52 + fraction) =
      negative.toNat * 2 ^ 63 + (field * 2 ^ 52 + fraction) := by
    cases negative <;> rfl
  have hbit : negative.toNat ≤ 1 := Bool.toNat_le negative
  generalize signed negative (field * 2 ^ 52 + fraction) = bits at hbits
  have hnegative : decide (double.signBit ≤ bits) = negative := by
    rw [signBit_double]
    cases negative <;> simp at hbits ⊢ <;> omega
  have hexponent : bits / 2 ^ double.fractionBits % 2 ^ double.exponentBits = field := by
    change bits / 2 ^ 52 % 2 ^ 11 = field
    omega
  have hlower : bits % 2 ^ double.fractionBits = fraction := by
    change bits % 2 ^ 52 = fraction
    omega
  unfold classify BinaryFormat.classify
  rw [UInt64.toNat_ofNat_of_lt' (show bits < 2 ^ 64 by omega)]
  simp only [hnegative, hexponent, hlower, topExponent_double, leastExponent_double, beq_iff_eq]
  rfl

/-! ## Rounding to bits -/

theorem placeOf_double {n : Nat} (hpos : 0 < n) :
    double.placeOf n 1 = (Nat.log2 n : Int) - 52 := by
  have hreaches : 1 * 2 ^ Nat.log2 n ≤ n := by
    rw [one_mul]
    exact Nat.log2_self_le (by omega)
  have hlog : Nat.log2 1 = 0 := rfl
  have hfraction : double.fractionBits = 52 := rfl
  have htop : (Nat.log2 n : Int) - (0 : Nat) - (52 : Nat) + (52 : Nat) = Nat.log2 n := by omega
  unfold BinaryFormat.placeOf
  rw [leastExponent_double, hfraction, hlog]
  dsimp only
  rw [htop, if_neg (not_lt.mpr (Int.natCast_nonneg _)), Int.toNat_natCast,
    decide_eq_true hreaches, if_pos rfl, max_eq_right (by omega)]
  omega

theorem roundQuotient_one (n : Nat) : roundQuotient n 1 = n := by
  simp [roundQuotient, Nat.mod_one]

theorem roundScaled_double {n : Nat} (hpos : 0 < n) :
    ∃ q, roundScaled n 1 ((Nat.log2 n : Int) - 52) = q ∧ 2 ^ 52 ≤ q ∧ q ≤ 2 ^ 53 ∧
      rounded n * 2 ^ 52 = q * 2 ^ Nat.log2 n := by
  have hlow := Nat.log2_self_le (show n ≠ 0 by omega)
  have hhigh := Nat.lt_log2_self (n := n)
  refine ⟨_, rfl, ?_⟩
  unfold roundScaled
  by_cases hplace : (Nat.log2 n : Int) - 52 < 0
  · -- All bits of a small number fit, and zeros follow them.
    have hshift : (-((Nat.log2 n : Int) - 52)).toNat = 52 - Nat.log2 n := by omega
    have hpow : 2 ^ Nat.log2 n * 2 ^ (52 - Nat.log2 n) = 2 ^ 52 := by
      rw [← pow_add]
      congr 1
      omega
    have hrounded : rounded n = n := by
      apply rounded_of_hasBits
      refine ⟨n, 0, ?_, by simp⟩
      exact lt_of_lt_of_le hhigh (Nat.pow_le_pow_right (by omega) (by omega))
    have hle := Nat.mul_le_mul_right (2 ^ (52 - Nat.log2 n)) hlow
    have hlt := Nat.mul_le_mul_right (2 ^ (52 - Nat.log2 n)) hhigh.le
    rw [pow_succ, Nat.mul_right_comm] at hlt
    rw [if_pos hplace, hshift, roundQuotient_one, hrounded, Nat.mul_assoc, Nat.mul_comm (2 ^ _),
      hpow]
    refine ⟨by omega, by omega, rfl⟩
  · have hshift : ((Nat.log2 n : Int) - 52).toNat = placeOf n := by
      unfold placeOf
      omega
    have hpow : 2 ^ placeOf n * 2 ^ 52 = 2 ^ Nat.log2 n := by
      rw [← pow_add]
      congr 1
      unfold placeOf
      omega
    have hle := le_quotient_of_le (n := n) (by omega)
    have hlt := quotient_lt n
    rw [if_neg hplace, hshift, one_mul, rounded, Nat.mul_assoc, hpow]
    rcases roundQuotient_cases n (2 ^ placeOf n) with ⟨heq, -⟩ | ⟨heq, -⟩
    · refine ⟨by omega, by omega, rfl⟩
    · refine ⟨by omega, by omega, rfl⟩

theorem nearest_fields (negative : Bool) {n : Nat} (hpos : 0 < n) :
    ∃ m e, (2 ^ 52 ≤ m ∧ m < 2 ^ 53) ∧ rounded n * 2 ^ 52 = m * 2 ^ e ∧
      double.nearest negative n 1 =
        signed negative (min ((e + 1023) * 2 ^ 52 + (m - 2 ^ 52)) (2047 * 2 ^ 52)) := by
  obtain ⟨q, hq, hlow, hhigh, hvalue⟩ := roundScaled_double hpos
  have hfraction : double.fractionBits = 52 := rfl
  have hplace : ((Nat.log2 n : Int) - 52 - -1074).toNat = Nat.log2 n + 1022 := by omega
  have hne : (n == 0) = false := by
    rw [beq_eq_false_iff_ne]
    omega
  have hbits : double.nearest negative n 1 =
      signed negative (min ((Nat.log2 n + 1022) * 2 ^ 52 + q) (2047 * 2 ^ 52)) := by
    unfold BinaryFormat.nearest
    simp only [hne, Bool.false_eq_true, if_false, placeOf_double hpos, leastExponent_double,
      hfraction,
      hplace, hq, infinityBits_double]
    rfl
  rw [hbits]
  rcases Nat.lt_or_eq_of_le hhigh with hlt | hcarry
  · have hmagnitude : (Nat.log2 n + 1022) * 2 ^ 52 + q =
        (Nat.log2 n + 1023) * 2 ^ 52 + (q - 2 ^ 52) := by
      clear hbits hvalue
      omega
    exact ⟨q, Nat.log2 n, ⟨hlow, hlt⟩, hvalue, by rw [hmagnitude]⟩
  · -- The leading bit has moved up by one place.
    have hmagnitude : (Nat.log2 n + 1022) * 2 ^ 52 + q =
        (Nat.log2 n + 1 + 1023) * 2 ^ 52 + (2 ^ 52 - 2 ^ 52) := by
      clear hbits hvalue
      omega
    refine ⟨2 ^ 52, Nat.log2 n + 1, ⟨le_refl _, by omega⟩, ?_, by rw [hmagnitude]⟩
    rw [hvalue, hcarry, pow_succ]
    ring

theorem lt_pow_iff {r m e : Nat} (hlow : 2 ^ 52 ≤ m) (hhigh : m < 2 ^ 53)
    (hvalue : r * 2 ^ 52 = m * 2 ^ e) (k : Nat) : r < 2 ^ k ↔ e < k := by
  have hunit := Nat.two_pow_pos e
  constructor
  · intro hlt
    by_contra hge
    have hpow : 2 ^ k ≤ 2 ^ e := Nat.pow_le_pow_right (by omega) (by omega)
    have := Nat.mul_le_mul_right (2 ^ e) hlow
    omega
  · intro hlt
    have hpow : 2 ^ e * 2 ≤ 2 ^ k := pow_succ 2 e ▸ Nat.pow_le_pow_right (by omega) hlt
    have hproduct := Nat.mul_lt_mul_of_pos_right hhigh hunit
    rw [← hvalue] at hproduct
    generalize 2 ^ e = unit at *
    omega

theorem denotes_of_fields (negative : Bool) {r m e : Nat} (hlow : 2 ^ 52 ≤ m) (hhigh : m < 2 ^ 53)
    (hvalue : r * 2 ^ 52 = m * 2 ^ e) (he : e < 1024) :
    Denotes ⟨UInt64.ofNat (signed negative ((e + 1023) * 2 ^ 52 + (m - 2 ^ 52)))⟩ negative r := by
  have hsignificand : 2 ^ 52 + (m - 2 ^ 52) = m := by omega
  have hexponent : (-1074 : Int) + (e + 1023 : Nat) - 1 = e - 52 := by omega
  refine ⟨m, (e : Int) - 52, ?_, ?_⟩
  · rw [classify_fields negative (by omega) (by omega), if_neg (by omega), if_neg (by omega),
      hsignificand, hexponent]
  · have hcast : (r : ℚ) * 2 ^ 52 = m * 2 ^ e := by exact_mod_cast hvalue
    rw [zpow_sub₀ two_ne_zero, zpow_natCast, ← mul_div_assoc, ← hcast]
    exact mul_div_cancel_right₀ _ (by positivity)

theorem classify_infinity (negative : Bool) :
    (infinity negative).classify = .infinite negative := by
  have hfields := classify_fields negative (le_refl 2047) (Nat.two_pow_pos 52)
  rw [Nat.add_zero] at hfields
  unfold infinity
  rw [infinityBits_double]
  exact hfields

/-- Rounding to bits in one step is rounding. -/
theorem rounds_nearest (negative : Bool) (n : Nat) :
    Rounds negative n (nearest negative n 1) := by
  rcases Nat.eq_zero_or_pos n with rfl | hpos
  · have hfields := classify_fields negative (Nat.zero_le 2047) (Nat.two_pow_pos 52)
    refine .finite (r := 0) ?_ bound_pos ⟨0, -1074, ?_, by simp⟩
    · exact isNearest_rounded 0
    · exact hfields
  · obtain ⟨m, e, ⟨hlow, hhigh⟩, hvalue, hbits⟩ := nearest_fields negative hpos
    unfold nearest
    rw [hbits]
    by_cases he : e < 1024
    · have hmagnitude : (e + 1023) * 2 ^ 52 + (m - 2 ^ 52) ≤ 2047 * 2 ^ 52 := by omega
      rw [min_eq_left hmagnitude]
      refine .finite (isNearest_rounded n) ?_ (denotes_of_fields negative hlow hhigh hvalue he)
      unfold bound
      exact (lt_pow_iff hlow hhigh hvalue 1024).mpr he
    · have hmagnitude : 2047 * 2 ^ 52 ≤ (e + 1023) * 2 ^ 52 + (m - 2 ^ 52) := by omega
      rw [min_eq_right hmagnitude]
      refine .overflow (isNearest_rounded n) ?_ (classify_infinity negative)
      apply Nat.le_of_not_lt
      intro h
      unfold bound at h
      exact he ((lt_pow_iff hlow hhigh hvalue 1024).mp h)

end

/-! ## One number for each value -/

theorem Denotes.unique {x : Binary64} {negative : Bool} {r s : Nat} (hr : x.Denotes negative r)
    (hs : x.Denotes negative s) : r = s := by
  obtain ⟨m, e, hclass, hvalue⟩ := hr
  obtain ⟨m', e', hclass', hvalue'⟩ := hs
  rw [hclass] at hclass'
  injection hclass' with _ hm he
  subst hm he
  rw [hvalue] at hvalue'
  exact_mod_cast hvalue'

theorem hasBits_bound : HasBits 53 bound := by
  have hpow := hasBits_mul_pow (Nat.one_le_two_pow (n := 53)) (by omega) 1024
  unfold bound
  simpa only [Nat.one_mul] using hpow

theorem bound_le_rounded {n : Nat} (h : bound ≤ n) : bound ≤ rounded n :=
  le_rounded hasBits_bound h

theorem denotes_nearest (negative : Bool) {r : Nat} (hbits : HasBits 53 r) (hfits : r < bound) :
    (nearest negative r 1).Denotes negative r := by
  have hself := rounded_of_hasBits hbits
  cases rounds_nearest negative r with
  | finite hnearest _ hdenotes =>
    rw [← eq_rounded hnearest] at hself
    exact hself ▸ hdenotes
  | overflow hnearest hexceeds _ =>
    rw [eq_rounded hnearest, hself] at hexceeds
    omega

theorem rounds_finite_iff {negative : Bool} {n r : Nat} (hbits : HasBits 53 r) (hfits : r < bound) :
    Rounds negative n (nearest negative r 1) ↔ r = rounded n := by
  -- A finite value is a number rounded once exactly if it is the one number nearest to it.
  have hdenotes := denotes_nearest negative hbits hfits
  constructor
  · intro h
    cases h with
    | finite hnearest _ hother => exact (hdenotes.unique hother).trans (eq_rounded hnearest)
    | overflow _ _ hinfinite =>
      obtain ⟨m, e, hclass, -⟩ := hdenotes
      rw [hclass] at hinfinite
      cases hinfinite
  · rintro rfl
    exact .finite (isNearest_rounded n) hfits hdenotes

theorem rounds_infinity_iff {negative : Bool} {n : Nat} :
    Rounds negative n (infinity negative) ↔ bound ≤ rounded n := by
  constructor
  · intro h
    cases h with
    | finite _ _ hdenotes =>
      obtain ⟨m, e, hclass, -⟩ := hdenotes
      rw [classify_infinity] at hclass
      cases hclass
    | overflow hnearest hexceeds _ => rwa [← eq_rounded hnearest]
  · intro h
    exact .overflow (isNearest_rounded n) h (classify_infinity negative)

theorem rounds_bounded_iff {negative : Bool} {n r : Nat} (hbits : HasBits 53 r) :
    Rounds negative n (if r < bound then nearest negative r 1 else infinity negative) ↔
      r = rounded n ∨ bound ≤ r ∧ bound ≤ rounded n := by
  split
  · rename_i hfits
    rw [rounds_finite_iff hbits hfits]
    omega
  · rename_i hexceeds
    rw [rounds_infinity_iff]
    omega

end Binary64

end WideRow
