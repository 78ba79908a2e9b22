import Mathlib.Data.Nat.Digits.Lemmas
import WideRow.Proofs.Varint

/-!
# Trimmed limbs

Trimmed limbs are the digits of their number in base `2 ^ 32`, so of two trimmed lists the longer one
is the greater number, and of equally long ones the topmost difference decides.
-/

namespace WideRow

namespace Limbs

/-! ## Digits -/

theorem toNat_eq_ofDigits (l : Limbs) :
    toNat l = Nat.ofDigits 4294967296 (l.map UInt32.toNat) := by
  induction l with
  | nil => rfl
  | cons x xs ih => simp [toNat, Nat.ofDigits_cons, ih]

theorem limb_lt {l : Limbs} : ∀ n ∈ l.map UInt32.toNat, n < 4294967296 := by
  simp only [List.mem_map]
  rintro _ ⟨x, -, rfl⟩
  exact x.toNat_lt

theorem map_eq_digits {l : Limbs} (h : l.IsTrimmed) :
    l.map UInt32.toNat = Nat.digits 4294967296 (toNat l) := by
  rw [toNat_eq_ofDigits, Nat.digits_ofDigits _ (by decide) _ limb_lt]
  intro hne hzero
  rw [List.getLast_map] at hzero
  apply h
  rw [List.getLast?_eq_some_getLast (by simpa using hne), Option.some.injEq]
  exact UInt32.toNat_inj.mp hzero

theorem trim_append_zeros (l : Limbs) : ∃ zeros, l = trim l ++ List.replicate zeros 0 := by
  -- Trimming takes zeros off the top and nothing else.
  induction l with
  | nil => exact ⟨0, rfl⟩
  | cons x xs ih =>
    obtain ⟨zeros, hxs⟩ := ih
    unfold trim
    split
    · rename_i hnil
      rw [hnil, List.nil_append] at hxs
      by_cases hx : x = 0
      · exact ⟨zeros + 1, by simp [hx, hxs, List.replicate_succ]⟩
      · exact ⟨zeros, by simp [hx, ← hxs]⟩
    · rename_i y ys hcons
      exact ⟨zeros, by rw [List.cons_append, ← hcons, ← hxs]⟩

/-! ## Order -/

theorem toNat_lt (l : Limbs) : toNat l < 4294967296 ^ l.length := by
  simpa [toNat_eq_ofDigits] using Nat.ofDigits_lt_base_pow_length (by decide) (limb_lt (l := l))

theorem pow_le_toNat {l : Limbs} (ht : l.IsTrimmed) {k : Nat} (h : k < l.length) :
    4294967296 ^ k ≤ toNat l := by
  rwa [← Nat.lt_digits_length_iff (by decide), ← map_eq_digits ht, List.length_map]

theorem toNat_lt_of_length {a b : Limbs} (hb : b.IsTrimmed) (h : a.length < b.length) :
    toNat a < toNat b :=
  Nat.lt_of_lt_of_le (toNat_lt a) (pow_le_toNat hb h)

theorem compare_limb (x y : UInt32) : compare x y = compare x.toNat y.toNat := by
  simp [compare, compareOfLessAndEq, UInt32.lt_iff_toNat_lt, ← UInt32.toNat_inj]

theorem compare_horner {x y m n : Nat} (hx : x < 4294967296) (hy : y < 4294967296) :
    compare (x + 4294967296 * m) (y + 4294967296 * n) = (compare m n).then (compare x y) := by
  obtain h | rfl | h := Nat.lt_trichotomy m n
  · rw [Nat.compare_eq_lt.mpr h, Nat.compare_eq_lt.mpr (by omega)]
    rfl
  · simp [compare, compareOfLessAndEq]
  · rw [Nat.compare_eq_gt.mpr h, Nat.compare_eq_gt.mpr (by omega)]
    rfl

theorem compareTop_append {a b : Limbs} (h : a.length = b.length) (x y : UInt32) :
    compareTop (a ++ [x]) (b ++ [y]) = (compareTop a b).then (compare x y) := by
  induction a generalizing b with
  | nil =>
    have hb : b = [] := List.length_eq_zero_iff.mp h.symm
    simp [hb, compareTop]
  | cons z zs ih =>
    cases b with
    | nil => simp at h
    | cons w ws =>
      have hlength : zs.length = ws.length := by simpa using h
      simp [compareTop, ih hlength, Ordering.then_assoc]

theorem compareTop_reverse {a b : Limbs} (h : a.length = b.length) :
    compareTop a.reverse b.reverse = compare (toNat a) (toNat b) := by
  induction a generalizing b with
  | nil =>
    have hb : b = [] := List.length_eq_zero_iff.mp h.symm
    simp [hb, compareTop, toNat]
  | cons x xs ih =>
    cases b with
    | nil => simp at h
    | cons y ys =>
      have hlength : xs.length = ys.length := by simpa using h
      rw [List.reverse_cons, List.reverse_cons, compareTop_append (by simpa using hlength), ih hlength,
        compare_limb, toNat, toNat, compare_horner x.toNat_lt y.toNat_lt]

theorem order_eq {a b : Limbs} (ha : a.IsTrimmed) (hb : b.IsTrimmed) :
    order a b = compare (toNat a) (toNat b) := by
  unfold order
  obtain h | h | h := Nat.lt_trichotomy a.length b.length
  · rw [Nat.compare_eq_lt.mpr h, Nat.compare_eq_lt.mpr (toNat_lt_of_length hb h)]
    rfl
  · rw [Nat.compare_eq_eq.mpr h, compareTop_reverse h]
    rfl
  · rw [Nat.compare_eq_gt.mpr h, Nat.compare_eq_gt.mpr (toNat_lt_of_length ha h)]
    rfl

end Limbs

end WideRow
