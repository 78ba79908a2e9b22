import WideRow.Proofs.InPlace
import WideRow.Proofs.Numeral

/-!
# Arithmetic with one limb in 64-bit words

Limbs are multiplied and divided through words of 64 bits, from which 32 bits go back into a limb.
Each step says what it needs: a number that fits a word, a word that fits a limb, a divisor. Nothing
is ever missing, because what is carried on fits a limb after every step.
-/

namespace WideRow

open Result

namespace InPlace

variable {ε : Type}

/-! ## Steps in words -/

/-- A number that has to fit a word. -/
def word (n : Nat) : Checked ε UInt64 :=
  if n < 2 ^ 64 then .ok (UInt64.ofNat n) else .error .fault

/-- A word that has to fit a limb. -/
def limb (w : UInt64) : Checked ε UInt32 :=
  if w.toNat < 2 ^ 32 then .ok w.toUInt32 else .error .fault

def divide (w divisor : UInt64) : Checked ε (UInt64 × UInt64) :=
  if divisor = 0 then .error .fault else .ok (w / divisor, w % divisor)

/-- The limbs of a product and what is carried into it. The lower half of each word is a limb of it,
and the upper half is carried on. -/
def mulAddCarry (factor : UInt32) (carry : UInt64) : Limbs → Checked ε Limbs
  | [] =>
    if carry = 0 then .ok []
    else do
      let top ← limb carry
      return [top]
  | x :: xs => do
    let scaled ← word (x.toNat * factor.toNat)
    let product ← word (scaled.toNat + carry.toNat)
    let upper ← mulAddCarry factor (product >>> 32) xs
    return product.toUInt32 :: upper

def mulAdd (l : Limbs) (factor addend : UInt32) : Checked ε Limbs := do
  let product ← mulAddCarry factor addend.toUInt64 l
  return Limbs.trim product

/-- The limbs of a quotient and the remainder, from the topmost limb down. -/
def divRemUpper (divisor : UInt32) : Limbs → Checked ε (Limbs × UInt64)
  | [] => .ok ([], 0)
  | x :: xs => do
    let (upper, remainder) ← divRemUpper divisor xs
    let shifted ← word (remainder.toNat * 2 ^ 32)
    let (quotient, remainder) ← divide (shifted ||| x.toUInt64) divisor.toUInt64
    let lower ← limb quotient
    return (lower :: upper, remainder)

def divRem (l : Limbs) (divisor : UInt32) : Checked ε (Limbs × UInt32) := do
  let (quotient, remainder) ← divRemUpper divisor l
  let rest ← limb remainder
  return (Limbs.trim quotient, rest)

theorem word_ok {n : Nat} (h : n < 2 ^ 64) :
    word n = (.ok (UInt64.ofNat n) : Checked ε UInt64) := if_pos h

theorem limb_ok {w : UInt64} (h : w.toNat < 2 ^ 32) :
    limb w = (.ok w.toUInt32 : Checked ε UInt32) := if_pos h

theorem divide_ok {w divisor : UInt64} (h : divisor ≠ 0) :
    divide w divisor = (.ok (w / divisor, w % divisor) : Checked ε _) := if_neg h

/-! ## Products -/

theorem product_lt (x factor : UInt32) {carry : Nat} (hcarry : carry < 2 ^ 32) :
    x.toNat * factor.toNat + carry < 2 ^ 32 * 2 ^ 32 := by
  have hx := x.toNat_lt
  have hfactor := factor.toNat_lt
  have hproduct : x.toNat * factor.toNat ≤ (2 ^ 32 - 1) * (2 ^ 32 - 1) :=
    Nat.mul_le_mul (by omega) (by omega)
  omega

theorem mulAddCarry_eq_ok (factor : UInt32) {carry : UInt64} (hcarry : carry.toNat < 2 ^ 32)
    (l : Limbs) :
    mulAddCarry factor carry l = (.ok (Limbs.mulAddCarry factor carry l) : Checked ε Limbs) := by
  induction l generalizing carry with
  | nil =>
    unfold mulAddCarry Limbs.mulAddCarry
    split
    · rfl
    · rw [limb_ok hcarry]
      rfl
  | cons x xs ih =>
    have hlt := product_lt x factor hcarry
    have hscaled : (UInt64.ofNat (x.toNat * factor.toNat)).toNat = x.toNat * factor.toNat := by
      apply UInt64.toNat_ofNat_of_lt'
      simp only [UInt64.size]
      omega
    have hproduct : UInt64.ofNat (x.toNat * factor.toNat + carry.toNat) =
        x.toUInt64 * factor.toUInt64 + carry := by
      apply UInt64.toNat_inj.mp
      simp
    have hupper : ((x.toUInt64 * factor.toUInt64 + carry) >>> 32).toNat < 2 ^ 32 := by
      rw [← hproduct]
      simp [Nat.shiftRight_eq_div_pow]
      omega
    unfold mulAddCarry
    rw [word_ok (by omega), ok_bind, hscaled, word_ok (by omega), ok_bind, hproduct, ih hupper]
    rfl

theorem mulAdd_eq_ok (l : Limbs) (factor addend : UInt32) :
    mulAdd l factor addend = (.ok (l.mulAdd factor addend) : Checked ε Limbs) := by
  have haddend : addend.toUInt64.toNat < 2 ^ 32 := by
    rw [UInt32.toNat_toUInt64]
    exact addend.toNat_lt
  unfold mulAdd
  rw [mulAddCarry_eq_ok factor haddend]
  rfl

/-! ## Quotients -/

theorem shifted_or (remainder : UInt64) (x : UInt32) (hsmall : remainder.toNat < 2 ^ 32) :
    UInt64.ofNat (remainder.toNat * 2 ^ 32) ||| x.toUInt64 =
      remainder * 4294967296 + x.toUInt64 := by
  have hx : x.toNat < 2 ^ 32 := x.toNat_lt
  have hshifted : (UInt64.ofNat (remainder.toNat * 2 ^ 32)).toNat = remainder.toNat <<< 32 := by
    rw [Nat.shiftLeft_eq]
    apply UInt64.toNat_ofNat_of_lt'
    simp only [UInt64.size]
    omega
  apply UInt64.toNat_inj.mp
  rw [UInt64.toNat_or, hshifted, UInt32.toNat_toUInt64, ← Nat.shiftLeft_add_eq_or_of_lt hx,
    UInt64.toNat_add, UInt64.toNat_mul, UInt32.toNat_toUInt64, Nat.shiftLeft_eq]
  simp
  omega

theorem quotient_lt {divisor remainder x : Nat} (h : remainder < divisor) (hx : x < 2 ^ 32) :
    (remainder * 2 ^ 32 + x) / divisor < 2 ^ 32 := by
  -- A remainder is less than the divisor, so a quotient of the word that it leads fits a limb.
  rw [Nat.div_lt_iff_lt_mul (by omega)]
  have := Nat.mul_le_mul_right (2 ^ 32) (Nat.succ_le_of_lt h)
  rw [Nat.mul_comm divisor] at this
  omega

theorem divRemUpper_eq_ok {divisor : UInt32} (hd : 0 < divisor.toNat) (l : Limbs) :
    divRemUpper divisor l = (.ok (Limbs.divRemUpper divisor l) : Checked ε _) := by
  induction l with
  | nil => rfl
  | cons x xs ih =>
    obtain ⟨hless, -⟩ := Limbs.divRemUpper_spec divisor hd xs
    have hdivisor := divisor.toNat_lt
    have hx := x.toNat_lt
    have hne : divisor.toUInt64 ≠ 0 := by
      intro hzero
      have := congrArg UInt64.toNat hzero
      simp at this
      omega
    unfold divRemUpper Limbs.divRemUpper
    rw [ih, ok_bind]
    generalize Limbs.divRemUpper divisor xs = above at hless
    obtain ⟨upper, remainder⟩ := above
    dsimp only at hless ⊢
    have hquotient : ((remainder * 4294967296 + x.toUInt64) / divisor.toUInt64).toNat < 2 ^ 32 := by
      have := quotient_lt hless hx
      simp
      rwa [Nat.mod_eq_of_lt (by omega)]
    rw [word_ok (by omega), ok_bind, shifted_or remainder x (by omega), divide_ok hne, ok_bind,
      limb_ok hquotient]
    rfl

theorem divRem_eq_ok {divisor : UInt32} (hd : 0 < divisor.toNat) (l : Limbs) :
    divRem l divisor = (.ok (l.divRem divisor) : Checked ε _) := by
  obtain ⟨hless, -⟩ := Limbs.divRemUpper_spec divisor hd l
  have hdivisor := divisor.toNat_lt
  unfold divRem
  rw [divRemUpper_eq_ok hd, ok_bind]
  dsimp only
  rw [limb_ok (by omega)]
  rfl

end InPlace

namespace Limbs

theorem toNat_remainder (l : Limbs) {divisor : UInt32} (hd : 0 < divisor.toNat) :
    (l.divRem divisor).2.toNat = toNat l % divisor.toNat := by
  obtain ⟨hless, hsplit⟩ := divRem_spec l hd
  rw [hsplit, Nat.add_comm, Nat.add_mul_mod_self_right, Nat.mod_eq_of_lt hless]

/-- Multiplying by a limb, adding one and dividing by one are exact, at every length. The outcome is
trimmed, every word has room for what is put into it, and so has every limb. -/
theorem word_arithmetic_exact {ε : Type} (l : Limbs) :
    (∀ factor addend : UInt32,
      InPlace.mulAdd l factor addend = (.ok (l.mulAdd factor addend) : InPlace.Checked ε Limbs) ∧
        (l.mulAdd factor addend).IsTrimmed ∧
        toNat (l.mulAdd factor addend) = toNat l * factor.toNat + addend.toNat) ∧
      ∀ divisor : UInt32, 0 < divisor →
        InPlace.divRem l divisor = (.ok (l.divRem divisor) : InPlace.Checked ε _) ∧
          (l.divRem divisor).1.IsTrimmed ∧
          toNat (l.divRem divisor).1 = toNat l / divisor.toNat ∧
          (l.divRem divisor).2.toNat = toNat l % divisor.toNat := by
  constructor
  · intro factor addend
    exact ⟨InPlace.mulAdd_eq_ok l factor addend, isTrimmed_trim _, toNat_mulAdd l factor addend⟩
  · intro divisor hpos
    have hd : 0 < divisor.toNat := UInt32.lt_iff_toNat_lt.mp hpos
    exact ⟨InPlace.divRem_eq_ok hd l, isTrimmed_trim _, toNat_divRem l hd, toNat_remainder l hd⟩

/-- The greatest factor and divisor, with a quotient that is the greatest limb. -/
theorem word_arithmetic_exact_greatest :
    let l : Limbs := [0xFFFFFFFF, 0xFFFFFFFE]
    InPlace.mulAdd l 0xFFFFFFFF 0xFFFFFFFF =
        (.ok [0, 1, 0xFFFFFFFE] : InPlace.Checked Unit Limbs) ∧
      (0 : UInt32) < 0xFFFFFFFF ∧
      InPlace.divRem l 0xFFFFFFFF = (.ok ([0xFFFFFFFF], 0xFFFFFFFE) : InPlace.Checked Unit _) ∧
      (l.divRem 0xFFFFFFFF).2.toNat = toNat l % 4294967295 := by
  intro l
  obtain ⟨hproduct, hquotient⟩ := word_arithmetic_exact (ε := Unit) l
  have hpos : (0 : UInt32) < 0xFFFFFFFF := by decide
  obtain ⟨hdivided, -, -, hremainder⟩ := hquotient 0xFFFFFFFF hpos
  exact ⟨(hproduct 0xFFFFFFFF 0xFFFFFFFF).1, hpos, hdivided, hremainder⟩

end Limbs

end WideRow
