import Mathlib.Data.Int.ModEq
import Mathlib.Data.List.Induction
import Mathlib.Tactic.Linarith
import Mathlib.Tactic.Positivity
import Mathlib.Tactic.Ring
import Mathlib.Tactic.Zify
import WideRow.Bytes

/-!
# Byte strings as numbers

Writing a number and reading it back, with and without a sign. The key fact is that a byte string is
determined by its length and its number.
-/

namespace WideRow.Bytes

/-! ## Without a sign -/

theorem toNat_nil : toNat [] = 0 := rfl

theorem toNat_append_one (b : Bytes) (x : UInt8) : toNat (b ++ [x]) = toNat b * 256 + x.toNat := by
  simp [toNat, List.foldl_append]

theorem toNat_append (a b : Bytes) : toNat (a ++ b) = toNat a * 256 ^ b.length + toNat b := by
  induction b using List.reverseRecOn with
  | nil => simp [toNat_nil]
  | append_singleton b x ih =>
    rw [← List.append_assoc, toNat_append_one, ih, toNat_append_one, List.length_append,
      List.length_singleton, Nat.pow_succ]
    ring

theorem toNat_singleton (x : UInt8) : toNat [x] = x.toNat := by
  simp [toNat]

theorem toNat_cons (x : UInt8) (b : Bytes) : toNat (x :: b) = x.toNat * 256 ^ b.length + toNat b := by
  rw [← List.singleton_append, toNat_append, toNat_singleton]

theorem toNat_lt (b : Bytes) : toNat b < 256 ^ b.length := by
  induction b using List.reverseRecOn with
  | nil => simp [toNat_nil]
  | append_singleton b x ih =>
    have := x.toNat_lt
    rw [toNat_append_one, List.length_append, List.length_singleton, Nat.pow_succ]
    omega

@[simp]
theorem length_ofNat (width n : Nat) : (ofNat width n).length = width := by
  induction width generalizing n with
  | zero => rfl
  | succ width ih => simp [ofNat, ih]

theorem toNat_ofNat (width n : Nat) : toNat (ofNat width n) = n % 256 ^ width := by
  induction width generalizing n with
  | zero => simp [ofNat, toNat_nil, Nat.mod_one]
  | succ width ih =>
    rw [ofNat, toNat_append_one, ih, Nat.pow_succ', Nat.mod_mul, UInt8.toNat_ofNat']
    omega

theorem toNat_ofNat_of_lt {width n : Nat} (h : n < 256 ^ width) : toNat (ofNat width n) = n := by
  rw [toNat_ofNat, Nat.mod_eq_of_lt h]

theorem ofNat_toNat (b : Bytes) : ofNat b.length (toNat b) = b := by
  induction b using List.reverseRecOn with
  | nil => rfl
  | append_singleton b x ih =>
    have hx := x.toNat_lt
    rw [List.length_append, List.length_singleton, ofNat, toNat_append_one]
    rw [show (toNat b * 256 + x.toNat) / 256 = toNat b by omega, ih]
    congr 2
    apply UInt8.toNat_inj.mp
    rw [UInt8.toNat_ofNat']
    omega

theorem eq_of_toNat {a b : Bytes} (hl : a.length = b.length) (hn : toNat a = toNat b) : a = b := by
  rw [← ofNat_toNat a, ← ofNat_toNat b, hl, hn]

/-! ## With a sign -/

theorem signBit_iff (b : Bytes) : signBit b = true ↔ 256 ^ b.length ≤ 2 * toNat b := by
  cases b with
  | nil => simp [signBit, toNat_nil]
  | cons x b =>
    have := toNat_lt b
    simp only [signBit, decide_eq_true_eq, toNat_cons, List.length_cons, Nat.pow_succ]
    constructor
    · intro h
      have := Nat.mul_le_mul_right (256 ^ b.length) h
      omega
    · intro h
      by_contra hx
      have := Nat.mul_le_mul_right (256 ^ b.length) (show x.toNat ≤ 127 by omega)
      omega

theorem toInt_of_signBit {b : Bytes} (h : signBit b = true) :
    toInt b = (toNat b : Int) - 256 ^ b.length := by
  rw [toInt, if_pos h]

theorem toInt_of_not_signBit {b : Bytes} (h : signBit b = false) : toInt b = toNat b := by
  rw [toInt, if_neg (by simp [h])]

theorem toInt_bounds (b : Bytes) :
    -(256 ^ b.length : Int) ≤ 2 * toInt b ∧ 2 * toInt b < 256 ^ b.length := by
  have hlt : (toNat b : Int) < 256 ^ b.length := by exact_mod_cast toNat_lt b
  cases h : signBit b with
  | true =>
    have : (256 ^ b.length : Int) ≤ 2 * toNat b := by exact_mod_cast (signBit_iff b).mp h
    rw [toInt_of_signBit h]
    omega
  | false =>
    have : ¬ (256 ^ b.length : Int) ≤ 2 * toNat b := by
      intro hle
      have := (signBit_iff b).mpr (by exact_mod_cast hle)
      simp [h] at this
    rw [toInt_of_not_signBit h]
    omega

theorem toInt_emod (b : Bytes) : toInt b % 256 ^ b.length = toNat b := by
  have hlt : (toNat b : Int) < 256 ^ b.length := by exact_mod_cast toNat_lt b
  cases h : signBit b with
  | true => rw [toInt_of_signBit h, Int.sub_emod_right, Int.emod_eq_of_lt (by omega) hlt]
  | false => rw [toInt_of_not_signBit h, Int.emod_eq_of_lt (by omega) hlt]

theorem eq_of_emod_eq {m i j : Int} (hi : -m ≤ 2 * i ∧ 2 * i < m) (hj : -m ≤ 2 * j ∧ 2 * j < m)
    (h : i % m = j % m) : i = j := by
  obtain ⟨k, hk⟩ := Int.ModEq.dvd h
  have hk0 : k = 0 := by
    by_contra hne
    rcases (by omega : k ≤ -1 ∨ 1 ≤ k) with hle | hge
    · have := Int.mul_le_mul_of_nonneg_left hle (show 0 ≤ m by omega)
      omega
    · have := Int.mul_le_mul_of_nonneg_left hge (show 0 ≤ m by omega)
      omega
  rw [hk0] at hk
  omega

@[simp]
theorem length_ofInt (width : Nat) (i : Int) : (ofInt width i).length = width := by
  simp [ofInt]

theorem toNat_ofInt (width : Nat) (i : Int) : (toNat (ofInt width i) : Int) = i % 256 ^ width := by
  have hpos : (0 : Int) < 256 ^ width := by positivity
  have h0 := Int.emod_nonneg i hpos.ne'
  have hlt := Int.emod_lt_of_pos i hpos
  rw [ofInt, toNat_ofNat_of_lt]
  · exact Int.toNat_of_nonneg h0
  · zify
    rwa [Int.toNat_of_nonneg h0]

theorem toInt_ofInt {width : Nat} {i : Int} (h : -(256 ^ width : Int) ≤ 2 * i ∧ 2 * i < 256 ^ width) :
    toInt (ofInt width i) = i := by
  have hb := toInt_bounds (ofInt width i)
  have he := toInt_emod (ofInt width i)
  rw [length_ofInt] at hb he
  apply eq_of_emod_eq hb h
  rw [he, toNat_ofInt]

theorem ofInt_toInt (b : Bytes) : ofInt b.length (toInt b) = b := by
  apply eq_of_toNat (length_ofInt _ _)
  zify
  rw [toNat_ofInt, toInt_emod]

end WideRow.Bytes
