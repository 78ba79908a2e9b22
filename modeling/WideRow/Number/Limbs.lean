import WideRow.Bytes

/-!
# Magnitudes in limbs

A natural number of any size is a list of 32-bit limbs, least significant first. The list is
trimmed when its top limb is not zero, so every number has one trimmed list and 0 is the empty one.
Products and quotients by one limb run through 64-bit words: `mulAdd` carries upwards, `divRem`
carries the remainder downwards.
-/

namespace WideRow

/-- A natural number in base `2 ^ 32`, least significant limb first. -/
abbrev Limbs := List UInt32

namespace Limbs

def toNat : Limbs → Nat
  | [] => 0
  | x :: xs => x.toNat + 4294967296 * toNat xs

/-- No zero limb stands at the top. -/
def IsTrimmed (l : Limbs) : Prop :=
  l.getLast? ≠ some 0

instance (l : Limbs) : Decidable l.IsTrimmed :=
  inferInstanceAs (Decidable (l.getLast? ≠ some 0))

def trim : Limbs → Limbs
  | [] => []
  | x :: xs =>
    match trim xs with
    | [] => if x = 0 then [] else [x]
    | y :: ys => x :: y :: ys

/-! ## Arithmetic with one limb -/

/-- The limbs of `l * factor + carry`, one 64-bit product at a time. -/
def mulAddCarry (factor : UInt32) (carry : UInt64) : Limbs → Limbs
  | [] => if carry = 0 then [] else [carry.toUInt32]
  | x :: xs =>
    let product := x.toUInt64 * factor.toUInt64 + carry
    product.toUInt32 :: mulAddCarry factor (product >>> 32) xs

/-- The trimmed limbs of `l * factor + addend`. -/
def mulAdd (l : Limbs) (factor addend : UInt32) : Limbs :=
  trim (mulAddCarry factor addend.toUInt64 l)

/-- The quotient by `divisor`, limb for limb, and the remainder. The remainder of the upper limbs
leads the limb below them. -/
def divRemUpper (divisor : UInt32) : Limbs → Limbs × UInt64
  | [] => ([], 0)
  | x :: xs =>
    let upper := divRemUpper divisor xs
    let current := upper.2 * 4294967296 + x.toUInt64
    ((current / divisor.toUInt64).toUInt32 :: upper.1, current % divisor.toUInt64)

/-- The trimmed quotient by `divisor`, and the remainder. -/
def divRem (l : Limbs) (divisor : UInt32) : Limbs × UInt32 :=
  let result := divRemUpper divisor l
  (trim result.1, result.2.toUInt32)

/-! ## Order -/

/-- Compares limb lists of one length from the first limb on. -/
def compareTop : Limbs → Limbs → Ordering
  | x :: xs, y :: ys => (compare x y).then (compareTop xs ys)
  | [], [] => .eq
  | [], _ :: _ => .lt
  | _ :: _, [] => .gt

/-- The order of the numbers that two trimmed lists stand for: the longer list is the greater
number, and of equally long ones the topmost difference decides. -/
def order (a b : Limbs) : Ordering :=
  (compare a.length b.length).then (compareTop a.reverse b.reverse)

/-! ## Bytes -/

/-- Groups of four bytes, the string being read from its end. -/
def ofReversedBytes : Bytes → Limbs
  | [] => []
  | [a] => [UInt32.ofNat (Bytes.toNat [a])]
  | [a, b] => [UInt32.ofNat (Bytes.toNat [b, a])]
  | [a, b, c] => [UInt32.ofNat (Bytes.toNat [c, b, a])]
  | a :: b :: c :: d :: rest => UInt32.ofNat (Bytes.toNat [d, c, b, a]) :: ofReversedBytes rest

/-- The limbs of the number that bytes write, most significant byte first. -/
def ofBytes (b : Bytes) : Limbs :=
  ofReversedBytes b.reverse

/-- The bytes of the number, most significant first and without zeros in front. -/
def toBytes (l : Limbs) : Bytes :=
  (l.reverse.flatMap fun x => Bytes.ofNat 4 x.toNat).dropWhile (· == 0)

/-! ## What the operations do to the number -/

theorem toNat_trim (l : Limbs) : toNat (trim l) = toNat l := by
  induction l with
  | nil => rfl
  | cons x xs ih =>
    simp only [trim]
    split
    · next h =>
      have hz : toNat xs = 0 := by rw [← ih, h]; rfl
      split
      · next hx => simp [toNat, hz, hx]
      · simp [toNat, hz]
    · next y ys h => simp only [toNat, ← ih, h]

theorem length_trim_le (l : Limbs) : (trim l).length ≤ l.length := by
  induction l with
  | nil => simp [trim]
  | cons x xs ih =>
    simp only [trim]
    split
    · split <;> simp
    · next y ys h => simp_all

theorem trim_eq_nil_of_toNat {l : Limbs} (h : toNat l = 0) : trim l = [] := by
  induction l with
  | nil => rfl
  | cons x xs ih =>
    simp only [toNat] at h
    have hx : x = 0 := UInt32.toNat_inj.1 (by simp; omega)
    simp [trim, ih (by omega), hx]

theorem isTrimmed_trim (l : Limbs) : (trim l).IsTrimmed := by
  induction l with
  | nil => simp [trim, IsTrimmed]
  | cons x xs ih =>
    simp only [trim]
    split
    · split
      · simp [IsTrimmed]
      · next h => simpa [IsTrimmed] using h
    · next y ys h =>
      rw [h] at ih
      simpa [IsTrimmed, List.getLast?_cons_cons] using ih

theorem length_divRemUpper (divisor : UInt32) (l : Limbs) :
    (divRemUpper divisor l).1.length = l.length := by
  induction l with
  | nil => rfl
  | cons x xs ih => simp [divRemUpper, ih]

theorem divRemUpper_spec (divisor : UInt32) (hd : 0 < divisor.toNat) (l : Limbs) :
    (divRemUpper divisor l).2.toNat < divisor.toNat ∧
      toNat l = toNat (divRemUpper divisor l).1 * divisor.toNat +
        (divRemUpper divisor l).2.toNat := by
  induction l with
  | nil => simp [divRemUpper, toNat, hd]
  | cons x xs ih =>
    obtain ⟨hr, hv⟩ := ih
    have hx := x.toNat_lt
    have hdl := divisor.toNat_lt
    simp only [divRemUpper, toNat]
    generalize divRemUpper divisor xs = u at hr hv
    have hc : (u.2 * 4294967296 + x.toUInt64).toNat = u.2.toNat * 4294967296 + x.toNat := by
      simp only [UInt64.toNat_add, UInt64.toNat_mul, UInt32.toNat_toUInt64]
      have : UInt64.toNat 4294967296 = 4294967296 := rfl
      rw [this]
      omega
    generalize hcur : u.2 * 4294967296 + x.toUInt64 = current at hc
    have hm : current.toNat % divisor.toNat < divisor.toNat := Nat.mod_lt _ hd
    have hq : current.toNat / divisor.toNat < 4294967296 := by
      rw [hc, Nat.div_lt_iff_lt_mul hd]
      have := Nat.mul_le_mul_right 4294967296 (Nat.succ_le_of_lt hr)
      rw [Nat.mul_comm divisor.toNat] at this
      omega
    have hdm := Nat.div_add_mod current.toNat divisor.toNat
    simp only [UInt64.toNat_toUInt32, UInt64.toNat_div, UInt64.toNat_mod, UInt32.toNat_toUInt64,
      Nat.mod_eq_of_lt hq]
    refine ⟨hm, ?_⟩
    rw [hv, Nat.add_mul, Nat.mul_assoc, Nat.mul_add]
    rw [Nat.mul_comm divisor.toNat] at hdm
    omega

theorem toNat_divRem (l : Limbs) {divisor : UInt32} (hd : 0 < divisor.toNat) :
    toNat (divRem l divisor).1 = toNat l / divisor.toNat := by
  obtain ⟨hr, hv⟩ := divRemUpper_spec divisor hd l
  simp only [divRem, toNat_trim]
  rw [hv, Nat.mul_comm, Nat.mul_add_div hd, Nat.div_eq_of_lt hr, Nat.add_zero]

theorem divRem_decreases {l : Limbs} (h : l ≠ []) {divisor : UInt32} (hd : 1 < divisor.toNat) :
    toNat (divRem l divisor).1 + (divRem l divisor).1.length < toNat l + l.length := by
  -- A quotient by more than 1 is a smaller number or has fewer limbs, so repeated division of a
  -- nonempty list ends.
  have hq := toNat_divRem l (Nat.lt_of_succ_lt hd)
  have hlen : (divRem l divisor).1.length ≤ l.length :=
    length_divRemUpper divisor l ▸ length_trim_le _
  by_cases h0 : toNat l = 0
  · have hz : (divRem l divisor).1 = [] := by
      obtain ⟨_, hv⟩ := divRemUpper_spec divisor (Nat.lt_of_succ_lt hd) l
      refine trim_eq_nil_of_toNat ?_
      have : 0 < divisor.toNat := Nat.lt_of_succ_lt hd
      rcases Nat.eq_zero_or_pos (toNat (divRemUpper divisor l).1) with h1 | h1
      · exact h1
      · have := Nat.mul_pos h1 this
        omega
    have := List.length_pos_iff.2 h
    simp [hz, toNat]
    omega
  · have := Nat.div_lt_self (Nat.pos_of_ne_zero h0) hd
    omega

end Limbs

end WideRow
