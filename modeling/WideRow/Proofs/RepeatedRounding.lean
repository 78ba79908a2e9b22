import WideRow.Number.Decimal
import WideRow.Proofs.Rounding
import WideRow.Proofs.Varint

/-!
# Integers of any size as binary values

The sum of limbs is rounded after every limb. Once the upper limbs take more than 53 bits, a further
one is less than half a unit and gets lost, so the sum is the number without its lowest limbs,
rounded once. What gets lost matters where the upper limbs are a tie: the number is above it, and
the tie may go down.
-/

namespace WideRow

open Binary64

namespace Limbs

/-! ## The limbs that count -/

/-- How many limbs are below the first ones that together have more than 53 bits. -/
def lostLimbs (n : Nat) : Nat :=
  (Nat.log2 n - 53) / 32

/-- The number without the limbs that are lost. -/
def upper (n : Nat) : Nat :=
  n / 2 ^ (32 * lostLimbs n)

theorem lostLimbs_of_lt {n : Nat} (h : n < 2 ^ 85) : lostLimbs n = 0 := by
  unfold lostLimbs
  rcases Nat.eq_zero_or_pos n with rfl | hpos
  · rfl
  · have := (Nat.log2_lt (by omega)).mpr h
    omega

theorem upper_of_lt {n : Nat} (h : n < 2 ^ 85) : upper n = n := by
  rw [upper, lostLimbs_of_lt h, Nat.mul_zero, Nat.pow_zero, Nat.div_one]

theorem upper_range {n : Nat} (h : 2 ^ 53 ≤ n) : 2 ^ 53 ≤ upper n ∧ upper n < 2 ^ 85 := by
  have hlow := Nat.log2_self_le (show n ≠ 0 by omega)
  have hhigh := Nat.lt_log2_self (n := n)
  have hlog : 53 ≤ Nat.log2 n := (Nat.le_log2 (by omega)).mpr h
  unfold upper
  rw [Nat.le_div_iff_mul_le (Nat.two_pow_pos _), Nat.div_lt_iff_lt_mul (Nat.two_pow_pos _),
    ← pow_add, ← pow_add]
  unfold lostLimbs
  constructor
  · apply le_trans (Nat.pow_le_pow_right (by omega) _) hlow
    omega
  · apply lt_of_lt_of_le hhigh
    apply Nat.pow_le_pow_right (by omega)
    omega

theorem split_eq {p k r : Nat} (hlow : 2 ^ 53 ≤ p) (hhigh : p < 2 ^ 85) (hr : r < 2 ^ (32 * k)) :
    lostLimbs (p * 2 ^ (32 * k) + r) = k ∧ upper (p * 2 ^ (32 * k) + r) = p := by
  have hpos := Nat.two_pow_pos (32 * k)
  have hbelow : 2 ^ (53 + 32 * k) ≤ p * 2 ^ (32 * k) + r := by
    rw [pow_add]
    have := Nat.mul_le_mul_right (2 ^ (32 * k)) hlow
    omega
  have habove : p * 2 ^ (32 * k) + r < 2 ^ (85 + 32 * k) := by
    rw [pow_add]
    have := Nat.mul_le_mul_right (2 ^ (32 * k)) (Nat.succ_le_of_lt hhigh)
    rw [Nat.succ_mul] at this
    omega
  have hne : p * 2 ^ (32 * k) + r ≠ 0 := by
    have := Nat.two_pow_pos (53 + 32 * k)
    omega
  have hlost : lostLimbs (p * 2 ^ (32 * k) + r) = k := by
    have := (Nat.le_log2 hne).mpr hbelow
    have := (Nat.log2_lt hne).mpr habove
    unfold lostLimbs
    omega
  refine ⟨hlost, ?_⟩
  rw [upper, hlost, Nat.mul_comm, Nat.mul_add_div hpos, Nat.div_eq_of_lt hr, Nat.add_zero]

theorem pow_limb_succ (k : Nat) : 2 ^ (32 * (k + 1)) = 2 ^ (32 * k) * 4294967296 :=
  Nat.pow_add 2 (32 * k) 32

theorem split_limb {n x : Nat} (hlarge : 2 ^ 53 ≤ n) (hx : x < 4294967296) :
    lostLimbs (x + 4294967296 * n) = lostLimbs n + 1 ∧ upper (x + 4294967296 * n) = upper n := by
  obtain ⟨hlow, hhigh⟩ := upper_range hlarge
  have hpow := pow_limb_succ (lostLimbs n)
  have hn := Nat.div_add_mod n (2 ^ (32 * lostLimbs n))
  have hlt := Nat.mod_lt n (Nat.two_pow_pos (32 * lostLimbs n))
  have hrest : 4294967296 * (n % 2 ^ (32 * lostLimbs n)) + x < 2 ^ (32 * (lostLimbs n + 1)) := by
    rw [hpow]
    omega
  have hsplit : x + 4294967296 * n =
      upper n * 2 ^ (32 * (lostLimbs n + 1)) + (4294967296 * (n % 2 ^ (32 * lostLimbs n)) + x) := by
    rw [hpow, ← Nat.mul_assoc, upper, Nat.mul_comm _ (2 ^ (32 * lostLimbs n))]
    omega
  rw [hsplit]
  exact split_eq hlow hhigh hrest

/-! ## The sum of limbs -/

/-- The sum rounded after every limb, as if finite values had no end. -/
def roundedSum : Limbs → Nat
  | [] => 0
  | x :: xs => rounded (roundedSum xs * 4294967296 + x.toNat)

theorem hasBits_roundedSum (l : Limbs) : HasBits 53 (roundedSum l) := by
  cases l with
  | nil => exact ⟨0, 0, by decide, rfl⟩
  | cons x xs => exact hasBits_rounded _

theorem hasBits_shift {bits n : Nat} (h : HasBits bits n) : HasBits bits (n * 4294967296) := by
  obtain ⟨m, e, hm, rfl⟩ := h
  refine ⟨m, e + 32, hm, ?_⟩
  rw [pow_add, ← Nat.mul_assoc]
  rfl

theorem appendLimb_some (n : Nat) (x : UInt32) :
    appendLimb (some n) x =
      (roundWhole (n * 4294967296)).bind fun shifted => roundWhole (shifted + x.toNat) := by
  unfold appendLimb
  rw [Option.bind_eq_bind, Option.bind_some]

theorem appendLimb_eq {n : Nat} (h : HasBits 53 n) (x : UInt32) :
    appendLimb (if n < bound then some n else none) x =
      if rounded (n * 4294967296 + x.toNat) < bound then some (rounded (n * 4294967296 + x.toNat))
      else none := by
  -- A shifted sum needs no rounding, and one that is past the largest finite value stays there.
  have hshift := rounded_of_hasBits (hasBits_shift h)
  by_cases hfits : n * 4294967296 < bound
  · have hn : n < bound := by omega
    rw [if_pos hn, appendLimb_some, roundWhole_eq, hshift, if_pos hfits, Option.bind_some,
      roundWhole_eq]
  · have hexceeds := bound_le_rounded (show bound ≤ n * 4294967296 + x.toNat by omega)
    rw [if_neg (not_lt.mpr hexceeds)]
    split
    · rw [appendLimb_some, roundWhole_eq, hshift, if_neg hfits, Option.bind_none]
    · rfl

theorem foldr_appendLimb (l : Limbs) :
    l.foldr (fun x sum => appendLimb sum x) (some 0) =
      if roundedSum l < bound then some (roundedSum l) else none := by
  induction l with
  | nil => simp [roundedSum, bound_pos]
  | cons x xs ih =>
    rw [List.foldr_cons, ih]
    exact appendLimb_eq (hasBits_roundedSum xs) x

/-! ## What rounding loses -/

theorem rounded_append_limb {n : Nat} (h : HasBits 53 n) (hlarge : 2 ^ 53 ≤ n) (x : UInt32) :
    rounded (n * 4294967296 + x.toNat) = n * 4294967296 := by
  -- Beside more than 53 bits the next limb is less than half a unit.
  have hx := x.toNat_lt
  have hshift := hasBits_shift h
  have hnearest := isNearest_rounded (n * 4294967296 + x.toNat)
  have hdist := hnearest.nearest _ hshift
  have hle := le_rounded hshift (Nat.le_add_right _ x.toNat)
  unfold Nat.dist at hdist
  -- Both are multiples of twice the limb's range.
  have hdvd := multiple_or_below hshift 33
  have hdvd' := multiple_or_below hnearest.bits 33
  omega

theorem roundedSum_eq (l : Limbs) :
    roundedSum l = rounded (upper (toNat l)) * 2 ^ (32 * lostLimbs (toNat l)) := by
  induction l with
  | nil => rfl
  | cons x xs ih =>
    have hx := x.toNat_lt
    rw [roundedSum, toNat]
    by_cases hsmall : toNat xs < 2 ^ 53
    · have hexact : roundedSum xs = toNat xs := by
        have hlt : toNat xs < 2 ^ 85 := by omega
        rw [ih, upper_of_lt hlt, lostLimbs_of_lt hlt, Nat.mul_zero, Nat.pow_zero, Nat.mul_one]
        exact rounded_of_hasBits ⟨toNat xs, 0, hsmall, by rw [Nat.pow_zero, Nat.mul_one]⟩
      have hlt : x.toNat + 4294967296 * toNat xs < 2 ^ 85 := by omega
      rw [upper_of_lt hlt, lostLimbs_of_lt hlt, Nat.mul_zero, Nat.pow_zero, Nat.mul_one, hexact,
        Nat.mul_comm, Nat.add_comm]
    · obtain ⟨hlow, -⟩ := upper_range (not_lt.mp hsmall)
      have hlarge : 2 ^ 53 ≤ roundedSum xs := by
        rw [ih]
        apply le_trans _ (Nat.le_mul_of_pos_right _ (Nat.two_pow_pos _))
        exact le_rounded ⟨1, 53, by decide, rfl⟩ hlow
      obtain ⟨hlost, hupper⟩ := split_limb (not_lt.mp hsmall) hx
      rw [rounded_append_limb (hasBits_roundedSum xs) hlarge, hlost, hupper, ih, Nat.mul_assoc,
        pow_limb_succ]

/-! ## Ties -/

/-- That a number is halfway between two values and is rounded down. -/
def TieDown (p : Nat) : Prop :=
  2 * (p % 2 ^ placeOf p) = 2 ^ placeOf p ∧ p / 2 ^ placeOf p % 2 = 0

/-- That a number is the midpoint of two neighbouring values, the lower one with an even significand
`q`, and something more, all of which is in limbs below those of the midpoint. -/
def LosesTie (n : Nat) : Prop :=
  ∃ q e k r, (2 ^ 52 ≤ q ∧ q < 2 ^ 53 ∧ q % 2 = 0) ∧ e < 32 ∧ (0 < r ∧ r < 2 ^ (32 * k)) ∧
    n = (2 * q + 1) * 2 ^ e * 2 ^ (32 * k) + r

theorem placeOf_eq {n u : Nat} (hlow : 2 ^ (u + 52) ≤ n) (hhigh : n < 2 ^ (u + 53)) :
    placeOf n = u := by
  have hne : n ≠ 0 := by
    have := Nat.two_pow_pos (u + 52)
    omega
  have := (Nat.le_log2 hne).mpr hlow
  have := (Nat.log2_lt hne).mpr hhigh
  unfold placeOf
  omega

theorem place_bounds {n : Nat} (hlarge : 2 ^ 53 ≤ n) :
    2 ^ (placeOf n + 52) ≤ n ∧ n < 2 ^ (placeOf n + 53) := by
  have hlog : 53 ≤ Nat.log2 n := (Nat.le_log2 (by omega)).mpr hlarge
  have hexp : placeOf n + 52 = Nat.log2 n := by
    unfold placeOf
    omega
  rw [show placeOf n + 53 = placeOf n + 52 + 1 from rfl, hexp]
  exact ⟨Nat.log2_self_le (by omega), Nat.lt_log2_self⟩

theorem placeOf_pos {n : Nat} (hlarge : 2 ^ 53 ≤ n) : 0 < placeOf n := by
  by_contra hzero
  have hhigh := (place_bounds hlarge).2
  rw [Nat.eq_zero_of_not_pos hzero] at hhigh
  omega

section

variable {p j r : Nat} (hp : 2 ^ 53 ≤ p) (hr : r < 2 ^ j)

include hp hr

theorem placeOf_append : placeOf (p * 2 ^ j + r) = placeOf p + j := by
  obtain ⟨hlow, hhigh⟩ := place_bounds hp
  apply placeOf_eq
  · rw [Nat.add_right_comm, pow_add]
    have := Nat.mul_le_mul_right (2 ^ j) hlow
    omega
  · rw [Nat.add_right_comm, pow_add]
    have := Nat.mul_le_mul_right (2 ^ j) (Nat.succ_le_of_lt hhigh)
    rw [Nat.succ_mul] at this
    omega

theorem unit_append : 2 ^ placeOf (p * 2 ^ j + r) = 2 ^ placeOf p * 2 ^ j := by
  rw [placeOf_append hp hr, pow_add]

theorem quotient_append :
    (p * 2 ^ j + r) / 2 ^ placeOf (p * 2 ^ j + r) = p / 2 ^ placeOf p ∧
      (p * 2 ^ j + r) % 2 ^ placeOf (p * 2 ^ j + r) = p % 2 ^ placeOf p * 2 ^ j + r := by
  have hdiv : (p * 2 ^ j + r) / 2 ^ j = p := by
    rw [Nat.mul_comm, Nat.mul_add_div (Nat.two_pow_pos j), Nat.div_eq_of_lt hr, Nat.add_zero]
  have hmod : (p * 2 ^ j + r) % 2 ^ j = r := by
    rw [Nat.mul_add_mod', Nat.mod_eq_of_lt hr]
  rw [unit_append hp hr, Nat.mul_comm (2 ^ placeOf p)]
  constructor
  · rw [← Nat.div_div_eq_div_mul, hdiv]
  · rw [Nat.mod_mul, hdiv, hmod, Nat.add_comm, Nat.mul_comm]

theorem rounded_append_of_tie (htie : TieDown p) (hpos : 0 < r) :
    rounded p * 2 ^ j =
        (p * 2 ^ j + r) / 2 ^ placeOf (p * 2 ^ j + r) * 2 ^ placeOf (p * 2 ^ j + r) ∧
      rounded (p * 2 ^ j + r) = rounded p * 2 ^ j + 2 ^ placeOf (p * 2 ^ j + r) := by
  obtain ⟨hhalf, heven⟩ := htie
  obtain ⟨hquotient, hrest⟩ := quotient_append hp hr
  have hunit := unit_append hp hr
  have hdown : rounded p = p / 2 ^ placeOf p * 2 ^ placeOf p := by
    unfold rounded
    rcases roundQuotient_cases p (2 ^ placeOf p) with ⟨heq, -⟩ | ⟨-, -, htied⟩
    · rw [heq]
    · have := htied hhalf
      omega
  have hfloor : rounded p * 2 ^ j =
      (p * 2 ^ j + r) / 2 ^ placeOf (p * 2 ^ j + r) * 2 ^ placeOf (p * 2 ^ j + r) := by
    rw [hquotient, hunit, hdown, Nat.mul_assoc]
  refine ⟨hfloor, ?_⟩
  rw [hfloor, rounded, ← Nat.succ_mul]
  congr 1
  rcases roundQuotient_cases (p * 2 ^ j + r) (2 ^ placeOf (p * 2 ^ j + r)) with
    ⟨-, hle, -⟩ | ⟨heq, -⟩
  · have hproduct : 2 * (p % 2 ^ placeOf p) * 2 ^ j = 2 ^ placeOf p * 2 ^ j := by rw [hhalf]
    rw [hrest, hunit, Nat.mul_add, ← Nat.mul_assoc, hproduct] at hle
    omega
  · exact heq

theorem rounded_append_of_no_tie (htie : TieDown p → r = 0) :
    rounded (p * 2 ^ j + r) = rounded p * 2 ^ j := by
  obtain ⟨hquotient, hrest⟩ := quotient_append hp hr
  have hunit := unit_append hp hr
  have heven : 2 ∣ 2 ^ placeOf p := dvd_pow_self 2 (placeOf_pos hp).ne'
  have hsame : BinaryFormat.roundQuotient (p * 2 ^ j + r) (2 ^ placeOf (p * 2 ^ j + r)) =
      BinaryFormat.roundQuotient p (2 ^ placeOf p) := by
    have hcases := roundQuotient_cases (p * 2 ^ j + r) (2 ^ placeOf (p * 2 ^ j + r))
    rw [hquotient, hrest, hunit, Nat.mul_add, ← Nat.mul_assoc] at hcases
    rw [hunit]
    unfold TieDown at htie
    generalize BinaryFormat.roundQuotient (p * 2 ^ j + r) (2 ^ placeOf p * 2 ^ j) = a at *
    rcases roundQuotient_cases p (2 ^ placeOf p) with ⟨heq, hhalf, htied⟩ | ⟨heq, hhalf, htied⟩
    · rcases Nat.lt_or_eq_of_le hhalf with hlt | htwice
      · -- The unit is even, so a remainder below its half leaves room for what is appended.
        have htwo : 2 * (p % 2 ^ placeOf p) + 2 ≤ 2 ^ placeOf p := by omega
        have hproduct := Nat.mul_le_mul_right (2 ^ j) htwo
        rw [Nat.add_mul] at hproduct
        omega
      · rw [htwice, htie ⟨htwice, htied htwice⟩] at hcases
        have := htied htwice
        omega
    · have hle := Nat.mul_le_mul_right (2 ^ j) hhalf
      rcases Nat.lt_or_eq_of_le hle with hlt | hproduct
      · omega
      · have := htied (Nat.eq_of_mul_eq_mul_right (Nat.two_pow_pos j) hproduct).symm
        omega
  rw [rounded, rounded, hsame, hunit, Nat.mul_assoc]

end

/-! ## Lost ties -/

theorem midpoint_bounds {q e : Nat} (hlow : 2 ^ 52 ≤ q) (hhigh : q < 2 ^ 53) :
    2 ^ (e + 1 + 52) ≤ (2 * q + 1) * 2 ^ e ∧ (2 * q + 1) * 2 ^ e < 2 ^ (e + 1 + 53) := by
  have hpos := Nat.two_pow_pos e
  rw [show e + 1 + 52 = 53 + e by omega, show e + 1 + 53 = 54 + e by omega, pow_add, pow_add]
  constructor
  · apply Nat.mul_le_mul_right
    omega
  · apply Nat.mul_lt_mul_of_pos_right _ hpos
    omega

theorem tieDown_midpoint {q e : Nat} (hlow : 2 ^ 52 ≤ q) (hhigh : q < 2 ^ 53) (heven : q % 2 = 0) :
    TieDown ((2 * q + 1) * 2 ^ e) := by
  obtain ⟨hbelow, habove⟩ := midpoint_bounds (e := e) hlow hhigh
  have hsplit : (2 * q + 1) * 2 ^ e = 2 ^ (e + 1) * q + 2 ^ e := by ring
  have hlt : 2 ^ e < 2 ^ (e + 1) := Nat.pow_lt_pow_right (by omega) (by omega)
  unfold TieDown
  rw [placeOf_eq hbelow habove, hsplit, Nat.mul_add_mod, Nat.mod_eq_of_lt hlt,
    Nat.mul_add_div (Nat.two_pow_pos _), Nat.div_eq_of_lt hlt]
  exact ⟨by ring, heven⟩

theorem eq_midpoint {p : Nat} (hlarge : 2 ^ 53 ≤ p) (htie : TieDown p) :
    p = (2 * (p / 2 ^ placeOf p) + 1) * 2 ^ (placeOf p - 1) := by
  have hsplit := Nat.div_add_mod' p (2 ^ placeOf p)
  have hhalf := htie.1
  obtain ⟨e, he⟩ := Nat.exists_eq_succ_of_ne_zero (placeOf_pos hlarge).ne'
  rw [he] at hsplit hhalf ⊢
  have hrest : p % 2 ^ e.succ = 2 ^ e := by
    rw [Nat.succ_eq_add_one, pow_succ] at hhalf ⊢
    omega
  calc p = p / 2 ^ e.succ * 2 ^ e.succ + 2 ^ e := by rw [← hrest, hsplit]
    _ = (2 * (p / 2 ^ e.succ) + 1) * 2 ^ (e.succ - 1) := by
      rw [Nat.succ_sub_one, Nat.succ_eq_add_one]
      ring

theorem losesTie_append {p k r : Nat} (hlow : 2 ^ 53 ≤ p) (hhigh : p < 2 ^ 85)
    (hr : r < 2 ^ (32 * k)) : LosesTie (p * 2 ^ (32 * k) + r) ↔ TieDown p ∧ 0 < r := by
  constructor
  · rintro ⟨q, e, k', r', ⟨hq, hq', heven⟩, he, ⟨hpos, hr'⟩, heq⟩
    obtain ⟨hbelow, habove⟩ := midpoint_bounds (e := e) hq hq'
    have hlow' : 2 ^ 53 ≤ (2 * q + 1) * 2 ^ e :=
      le_trans (Nat.pow_le_pow_right (by omega) (by omega)) hbelow
    have hhigh' : (2 * q + 1) * 2 ^ e < 2 ^ 85 :=
      lt_of_lt_of_le habove (Nat.pow_le_pow_right (by omega) (by omega))
    obtain ⟨hlost, hupper⟩ := split_eq hlow hhigh hr
    obtain ⟨hlost', hupper'⟩ := split_eq hlow' hhigh' hr'
    rw [heq, hlost'] at hlost
    rw [heq, hupper'] at hupper
    subst hlost hupper
    have hsame := Nat.add_left_cancel heq
    subst hsame
    exact ⟨tieDown_midpoint hq hq' heven, hpos⟩
  · rintro ⟨htie, hpos⟩
    have hquotient : 2 ^ 52 ≤ p / 2 ^ placeOf p := by
      rcases le_quotient p with hzero | hle
      · exact absurd hzero (placeOf_pos hlow).ne'
      · exact hle
    have hplace : placeOf p + 52 < 85 := by
      apply (Nat.pow_lt_pow_iff_right (show 1 < 2 by omega)).mp
      exact lt_of_le_of_lt (place_bounds hlow).1 hhigh
    refine ⟨p / 2 ^ placeOf p, placeOf p - 1, k, r, ⟨hquotient, quotient_lt p, htie.2⟩, by omega,
      ⟨hpos, hr⟩, ?_⟩
    rw [← eq_midpoint hlow htie]

/-- Below 85 bits no limb is lost. -/
theorem not_losesTie_of_lt {n : Nat} (h : n < 2 ^ 85) : ¬ LosesTie n := by
  rintro ⟨q, e, k, r, ⟨hq, -⟩, -, ⟨hpos, hr⟩, rfl⟩
  have hk : k ≠ 0 := by
    rintro rfl
    rw [Nat.mul_zero, Nat.pow_zero] at hr
    omega
  have hlimb : 2 ^ 32 ≤ 2 ^ (32 * k) := Nat.pow_le_pow_right (by omega) (by omega)
  have hmidpoint : 2 ^ 53 ≤ (2 * q + 1) * 2 ^ e :=
    le_trans (by omega) (Nat.le_mul_of_pos_right (2 * q + 1) (Nat.two_pow_pos e))
  have := Nat.mul_le_mul hmidpoint hlimb
  omega

/-! ## The sum beside the number -/

theorem roundedSum_of_lt {l : Limbs} (h : toNat l < 2 ^ 85) : roundedSum l = rounded (toNat l) := by
  rw [roundedSum_eq, upper_of_lt h, lostLimbs_of_lt h, Nat.mul_zero, Nat.pow_zero, Nat.mul_one]

theorem roundedSum_of_le {l : Limbs} (h : 2 ^ 53 ≤ toNat l) :
    ∃ p k r, (2 ^ 53 ≤ p ∧ p < 2 ^ 85) ∧ r < 2 ^ (32 * k) ∧ toNat l = p * 2 ^ (32 * k) + r ∧
      roundedSum l = rounded p * 2 ^ (32 * k) :=
  ⟨upper (toNat l), lostLimbs (toNat l), toNat l % 2 ^ (32 * lostLimbs (toNat l)), upper_range h,
    Nat.mod_lt _ (Nat.two_pow_pos _), (Nat.div_add_mod' _ _).symm, roundedSum_eq l⟩

theorem roundedSum_of_not_losesTie {l : Limbs} (h : ¬ LosesTie (toNat l)) :
    roundedSum l = rounded (toNat l) := by
  rcases Nat.lt_or_ge (toNat l) (2 ^ 53) with hsmall | hlarge
  · exact roundedSum_of_lt (by omega)
  · obtain ⟨p, k, r, ⟨hlow, hhigh⟩, hr, hsplit, hsum⟩ := roundedSum_of_le hlarge
    rw [hsplit, losesTie_append hlow hhigh hr] at h
    rw [hsum, hsplit, rounded_append_of_no_tie hlow hr]
    intro htie
    exact Nat.eq_zero_of_not_pos fun hpos => h ⟨htie, hpos⟩

theorem roundedSum_of_losesTie {l : Limbs} (h : LosesTie (toNat l)) :
    roundedSum l = toNat l / 2 ^ placeOf (toNat l) * 2 ^ placeOf (toNat l) ∧
      rounded (toNat l) = roundedSum l + 2 ^ placeOf (toNat l) := by
  have hlarge : 2 ^ 85 ≤ toNat l := not_lt.mp fun hlt => not_losesTie_of_lt hlt h
  obtain ⟨p, k, r, ⟨hlow, hhigh⟩, hr, hsplit, hsum⟩ := roundedSum_of_le (l := l) (by omega)
  rw [hsplit, losesTie_append hlow hhigh hr] at h
  rw [hsum, hsplit]
  exact rounded_append_of_tie hlow hr h.1 h.2

end Limbs

namespace Varint

open Limbs

theorem toBinary64_eq (v : Varint) :
    v.toBinary64 =
      if roundedSum v.magnitude < bound then nearest v.negative (roundedSum v.magnitude) 1
      else infinity v.negative := by
  unfold toBinary64 ofLimbsTopFirst
  rw [List.foldl_reverse, foldr_appendLimb]
  by_cases hfits : roundedSum v.magnitude < bound
  · rw [if_pos hfits, if_pos hfits]
  · rw [if_neg hfits, if_neg hfits]

/-- The binary value of a varint is its number rounded once, unless one of its lower limbs had to
break a tie. -/
theorem toBinary64_rounds_once (v : Varint) :
    Rounds v.negative v.toInt.natAbs (nearest v.negative v.toInt.natAbs 1) ∧
      (Rounds v.negative v.toInt.natAbs v.toBinary64 ↔
        ¬ (v.toInt.natAbs < bound ∧ LosesTie v.toInt.natAbs)) := by
  refine ⟨rounds_nearest _ _, ?_⟩
  rw [natAbs_toInt, toBinary64_eq, rounds_bounded_iff (hasBits_roundedSum v.magnitude)]
  by_cases hlost : LosesTie (toNat v.magnitude)
  · -- The sum is the value below the number, and the nearest one is above it.
    obtain ⟨hfloor, hnearest⟩ := roundedSum_of_losesTie hlost
    have hunit := Nat.two_pow_pos (placeOf (toNat v.magnitude))
    have hbelow : roundedSum v.magnitude ≤ toNat v.magnitude := by
      rw [hfloor]
      exact Nat.div_mul_le_self _ _
    have hexceeds : bound ≤ toNat v.magnitude → bound ≤ roundedSum v.magnitude := by
      rw [hfloor]
      exact le_of_hasBits hasBits_bound
    simp only [hlost, and_true, not_lt]
    constructor
    · rintro (heq | ⟨hle, -⟩) <;> omega
    · intro hle
      have := hexceeds hle
      omega
  · have hsum := roundedSum_of_not_losesTie hlost
    exact iff_of_true (.inl hsum) fun hboth => hlost hboth.2

/-- The least number above the midpoint of `2 ^ 95` and the next value. -/
def aboveMidpoint : Varint :=
  ofSignAndLimbs false [1, 1024, 2147483648]

/-- The lowest limb is lost, and the midpoint that is left is rounded down. -/
theorem toBinary64_aboveMidpoint :
    aboveMidpoint.toInt = 2 ^ 95 + 2 ^ 42 + 1 ∧
      aboveMidpoint.toBinary64 = ⟨0x45E0000000000000⟩ ∧
      nearest false (2 ^ 95 + 2 ^ 42 + 1) 1 = ⟨0x45E0000000000001⟩ ∧
      ¬ Rounds aboveMidpoint.negative aboveMidpoint.toInt.natAbs aboveMidpoint.toBinary64 := by
  have hmagnitude : aboveMidpoint.magnitude = [1, 1024, 2147483648] := by decide +kernel
  have hnumber : aboveMidpoint.toInt.natAbs = 2 ^ 95 + 2 ^ 42 + 1 := by decide +kernel
  have hsum : roundedSum [1, 1024, 2147483648] = 2 ^ 95 := by decide +kernel
  have hnearest : rounded (2 ^ 95 + 2 ^ 42 + 1) = 2 ^ 95 + 2 ^ 43 := by decide +kernel
  have hbits : HasBits 53 (2 ^ 95) := ⟨1, 95, by decide, rfl⟩
  have hfits : 2 ^ 95 < bound := by decide +kernel
  refine ⟨by decide +kernel, by decide +kernel, by decide +kernel, ?_⟩
  rw [toBinary64_eq, hmagnitude, hsum, if_pos hfits, rounds_finite_iff hbits hfits, hnumber,
    hnearest]
  decide

end Varint

end WideRow
