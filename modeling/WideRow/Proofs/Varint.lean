import WideRow.Number.Varint
import WideRow.Proofs.Bytes

/-!
# Integers of any size on the wire

A varint is determined by its integer, bytes are read as the integer that they denote in two's
complement, and an integer is written as the shortest bytes that denote it.
-/

namespace WideRow

namespace Limbs

/-! ## Limbs as numbers -/

theorem toNat_append (a b : Limbs) : toNat (a ++ b) = toNat a + 4294967296 ^ a.length * toNat b := by
  induction a with
  | nil => simp [toNat]
  | cons x xs ih =>
    rw [List.cons_append, toNat, toNat, ih, List.length_cons, Nat.pow_succ]
    ring

theorem isTrimmed_tail {x : UInt32} {xs : Limbs} (h : IsTrimmed (x :: xs)) : IsTrimmed xs := by
  cases xs with
  | nil => simp [IsTrimmed]
  | cons y ys => rwa [IsTrimmed, List.getLast?_cons_cons] at h

theorem toNat_pos {l : Limbs} (ht : l.IsTrimmed) (hne : l ≠ []) : 0 < toNat l := by
  induction l with
  | nil => exact absurd rfl hne
  | cons x xs ih =>
    rw [toNat]
    by_cases hxs : xs = []
    · have hx : x ≠ 0 := by
        rw [hxs] at ht
        simpa [IsTrimmed] using ht
      have : x.toNat ≠ 0 := fun h => hx (UInt32.toNat_inj.mp h)
      omega
    · have := ih (isTrimmed_tail ht) hxs
      omega

theorem eq_of_toNat {a b : Limbs} (ha : a.IsTrimmed) (hb : b.IsTrimmed) (h : toNat a = toNat b) :
    a = b := by
  induction a generalizing b with
  | nil =>
    by_contra hne
    have := toNat_pos hb (Ne.symm hne)
    rw [← h, toNat] at this
    omega
  | cons x xs ih =>
    cases b with
    | nil =>
      have := toNat_pos ha (List.cons_ne_nil _ _)
      rw [h, toNat] at this
      omega
    | cons y ys =>
      rw [toNat, toNat] at h
      have hx := x.toNat_lt
      have hy := y.toNat_lt
      have hxy : x = y := UInt32.toNat_inj.mp (by omega)
      rw [hxy, ih (isTrimmed_tail ha) (isTrimmed_tail hb) (by omega)]

/-! ## Limbs as bytes -/

theorem toNat_ofReversedBytes (b : Bytes) : toNat (ofReversedBytes b) = Bytes.toNat b.reverse := by
  induction b using ofReversedBytes.induct with
  | case1 => rfl
  | case2 a =>
    have := a.toNat_lt
    simp only [ofReversedBytes, toNat, Bytes.toNat_singleton, List.reverse_singleton,
      UInt32.toNat_ofNat']
    omega
  | case3 a b =>
    have := Bytes.toNat_lt [b, a]
    simp only [List.length_cons, List.length_nil] at this
    simp only [ofReversedBytes, toNat, UInt32.toNat_ofNat']
    simp
    omega
  | case4 a b c =>
    have := Bytes.toNat_lt [c, b, a]
    simp only [List.length_cons, List.length_nil] at this
    simp only [ofReversedBytes, toNat, UInt32.toNat_ofNat']
    simp
    omega
  | case5 a b c d rest ih =>
    have := Bytes.toNat_lt [d, c, b, a]
    simp only [List.length_cons, List.length_nil] at this
    have hsplit : (a :: b :: c :: d :: rest).reverse = rest.reverse ++ [d, c, b, a] := by simp
    rw [hsplit, Bytes.toNat_append, ofReversedBytes, toNat, ih, UInt32.toNat_ofNat']
    simp only [List.length_cons, List.length_nil]
    omega

theorem toNat_ofBytes (b : Bytes) : toNat (ofBytes b) = Bytes.toNat b := by
  rw [ofBytes, toNat_ofReversedBytes, List.reverse_reverse]

theorem toNat_dropZeroBytes (b : Bytes) : Bytes.toNat (b.dropWhile (· == 0)) = Bytes.toNat b := by
  induction b with
  | nil => rfl
  | cons x b ih =>
    by_cases hx : x = 0
    · rw [hx, List.dropWhile_cons_of_pos rfl, ih, Bytes.toNat_cons]
      simp
    · rw [List.dropWhile_cons_of_neg (by simpa using hx)]

theorem toNat_flatMap (l : List UInt32) :
    Bytes.toNat (l.flatMap fun x => Bytes.ofNat 4 x.toNat) = toNat l.reverse := by
  induction l using List.reverseRecOn with
  | nil => rfl
  | append_singleton l x ih =>
    have hx : x.toNat < 256 ^ 4 := x.toNat_lt
    rw [List.flatMap_append, Bytes.toNat_append, ih]
    simp only [List.flatMap_cons, List.flatMap_nil, List.append_nil, List.reverse_append,
      List.reverse_singleton, List.singleton_append, toNat, Bytes.length_ofNat,
      Bytes.toNat_ofNat_of_lt hx]
    omega

theorem toNat_toBytes (l : Limbs) : Bytes.toNat (toBytes l) = toNat l := by
  rw [toBytes, toNat_dropZeroBytes, toNat_flatMap, List.reverse_reverse]

theorem head_toBytes (l : Limbs) : (toBytes l).head? ≠ some 0 := by
  intro h
  have := List.head?_dropWhile_not (p := (· == (0 : UInt8)))
    (l.reverse.flatMap fun x => Bytes.ofNat 4 x.toNat)
  rw [← toBytes, h] at this
  simp at this

end Limbs

namespace Varint

/-! ## Varints as integers -/

theorem toInt_ofSignAndLimbs (negative : Bool) (l : Limbs) :
    (ofSignAndLimbs negative l).toInt = if negative then -(Limbs.toNat l : Int) else Limbs.toNat l := by
  have hl := Limbs.toNat_trim l
  cases negative with
  | false => simp [ofSignAndLimbs, toInt, hl]
  | true =>
    by_cases h : Limbs.trim l = []
    · have h0 : Limbs.toNat l = 0 := by rw [← hl, h]; rfl
      simp [ofSignAndLimbs, toInt, h0, hl]
    · simp [ofSignAndLimbs, toInt, hl, h]

theorem natAbs_toInt (v : Varint) : v.toInt.natAbs = Limbs.toNat v.magnitude := by
  unfold toInt
  split <;> omega

theorem toInt_injective {v w : Varint} (h : v.toInt = w.toInt) : v = w := by
  have hpos : ∀ u : Varint, u.negative = true → 0 < Limbs.toNat u.magnitude := by
    intro u hu
    exact Limbs.toNat_pos u.isTrimmed (u.nonzero_of_negative hu)
  have hs : v.negative = w.negative := by
    simp only [toInt] at h
    have hv := hpos v
    have hw := hpos w
    cases hvn : v.negative <;> cases hwn : w.negative <;> simp_all
  have hm : Limbs.toNat v.magnitude = Limbs.toNat w.magnitude := by
    simp only [toInt, hs] at h
    split at h <;> omega
  have hl := Limbs.eq_of_toNat v.isTrimmed w.isTrimmed hm
  cases v
  cases w
  simp_all

theorem isZero_iff (v : Varint) : v.isZero = true ↔ v.toInt = 0 := by
  constructor
  · intro h
    have : v.magnitude = [] := by simpa [isZero] using h
    simp [toInt, this, Limbs.toNat]
  · intro h
    by_contra hne
    have := Limbs.toNat_pos v.isTrimmed (by simpa [isZero] using hne)
    simp only [toInt] at h
    split at h <;> omega

theorem negative_iff (v : Varint) : v.negative = true ↔ v.toInt < 0 := by
  unfold toInt
  constructor
  · intro h
    have := Limbs.toNat_pos v.isTrimmed (v.nonzero_of_negative h)
    rw [if_pos h]
    omega
  · intro h
    by_contra hpositive
    rw [if_neg hpositive] at h
    omega

/-! ## Negation of bytes -/

theorem toNat_complement (x : UInt8) : (~~~x).toNat = 255 - x.toNat := by
  have := x.toNat_lt
  rw [UInt8.toNat_not]
  simp

theorem length_negateCarry (b : Bytes) : (negateCarry b).1.length = b.length := by
  induction b with
  | nil => rfl
  | cons x b ih =>
    simp only [negateCarry]
    split <;> simp [ih]

theorem toNat_complement_succ (x : UInt8) : (~~~x + 1).toNat = (256 - x.toNat) % 256 := by
  have hx := x.toNat_lt
  rw [UInt8.toNat_add, toNat_complement]
  simp
  omega

theorem sub_mul_add_mul {a n : Nat} (h : a ≤ n) (p : Nat) : (n - a) * p + a * p = p * n := by
  rw [← Nat.add_mul, Nat.sub_add_cancel h, Nat.mul_comm]

theorem negateCarry_spec (b : Bytes) :
    Bytes.toNat (negateCarry b).1 + (if (negateCarry b).2 then 256 ^ b.length else 0) + Bytes.toNat b =
      256 ^ b.length := by
  induction b with
  | nil => simp [negateCarry, Bytes.toNat_nil]
  | cons x b ih =>
    have hx := x.toNat_lt
    have hone := toNat_complement_succ x
    simp only [negateCarry]
    split
    · -- The carry has come through the bytes behind, which are all zero.
      rename_i hc
      rw [if_pos hc] at ih
      rw [Bytes.toNat_cons, Bytes.toNat_cons, length_negateCarry, hone, List.length_cons, Nat.pow_succ]
      by_cases h0 : x.toNat = 0
      · have hz : (~~~x + 1 == 0) = true := by
          rw [beq_iff_eq]
          apply UInt8.toNat_inj.mp
          rw [hone, h0]
          rfl
        rw [if_pos hz, h0]
        omega
      · have hz : ¬ (~~~x + 1 == 0) = true := by
          rw [beq_iff_eq]
          intro h
          rw [h] at hone
          simp at hone
          omega
        have hsum := sub_mul_add_mul (show x.toNat ≤ 256 by omega) (256 ^ b.length)
        rw [if_neg hz, Nat.mod_eq_of_lt (by omega)]
        omega
    · -- No carry: the byte is complemented.
      rename_i hc
      rw [if_neg hc] at ih
      have hsum := sub_mul_add_mul (show x.toNat ≤ 255 by omega) (256 ^ b.length)
      rw [Bytes.toNat_cons, Bytes.toNat_cons, length_negateCarry, toNat_complement, List.length_cons,
        Nat.pow_succ]
      simp only [Bool.false_eq_true, if_false]
      omega

theorem length_negateBytes (b : Bytes) : (negateBytes b).length = b.length := length_negateCarry b

theorem toNat_negateBytes {b : Bytes} (h : 0 < Bytes.toNat b) :
    Bytes.toNat (negateBytes b) = 256 ^ b.length - Bytes.toNat b := by
  have := negateCarry_spec b
  rw [negateBytes]
  split at this <;> omega

/-! ## Reading -/

theorem toInt_ofSignedBytes (b : Bytes) : (ofSignedBytes b).toInt = Bytes.toInt b := by
  rw [ofSignedBytes]
  split
  · rename_i h
    have hlt := Bytes.toNat_lt b
    have hge := (Bytes.signBit_iff b).mp h
    have hpow : 0 < 256 ^ b.length := Nat.pow_pos (by omega)
    have hneg := toNat_negateBytes (b := b) (by omega)
    rw [toInt_ofSignAndLimbs, if_pos rfl, Limbs.toNat_ofBytes, hneg, Bytes.toInt_of_signBit h]
    push_cast [Nat.cast_sub hlt.le]
    ring
  · rename_i h
    rw [toInt_ofSignAndLimbs, if_neg (by simp), Limbs.toNat_ofBytes,
      Bytes.toInt_of_not_signBit (by simpa using h)]

/-! ## Writing -/

theorem toInt_dropSignBytes (b : Bytes) : Bytes.toInt (dropSignBytes b) = Bytes.toInt b := by
  induction b using dropSignBytes.induct with
  | case1 x y rest h ih =>
    rw [dropSignBytes, if_pos h, ih]
    simp only [Bool.and_eq_true, beq_iff_eq, decide_eq_true_eq] at h
    obtain ⟨rfl, hy⟩ := h
    have hs : Bytes.signBit (y :: rest) = true := by simpa [Bytes.signBit, UInt8.le_iff_toNat_le] using hy
    rw [Bytes.toInt_of_signBit hs, Bytes.toInt_of_signBit rfl, Bytes.toNat_cons 0xFF]
    push_cast [List.length_cons, pow_succ]
    ring
  | case2 x y rest h => rw [dropSignBytes, if_neg h]
  | case3 b h => rw [dropSignBytes]; exact h

theorem toInt_toSignedBytes (v : Varint) : Bytes.toInt v.toSignedBytes = v.toInt := by
  rw [toSignedBytes]
  split
  · rename_i h
    rw [(isZero_iff v).mp h]
    rfl
  · rename_i h
    have hm : Bytes.toNat (Limbs.toBytes v.magnitude) = Limbs.toNat v.magnitude := Limbs.toNat_toBytes _
    have hpos : 0 < Limbs.toNat v.magnitude :=
      Limbs.toNat_pos v.isTrimmed (by simpa [isZero] using h)
    simp only [toInt]
    generalize Limbs.toBytes v.magnitude = m at hm
    have hlt := Bytes.toNat_lt m
    have hneg := toNat_negateBytes (b := m) (by omega)
    have hlen := length_negateBytes m
    split
    · rw [toInt_dropSignBytes]
      split
      · rename_i hs
        rw [Bytes.toInt_of_signBit hs, hneg, hlen, ← hm]
        push_cast [Nat.cast_sub hlt.le]
        ring
      · rw [Bytes.toInt_of_signBit rfl, Bytes.toNat_cons, List.length_cons, hneg, hlen, ← hm]
        push_cast [Nat.cast_sub hlt.le, pow_succ]
        ring
    · split
      · rw [Bytes.toInt_of_not_signBit rfl, Bytes.toNat_cons, ← hm]
        simp
      · rename_i hs
        rw [Bytes.toInt_of_not_signBit (by simpa using hs), hm]

theorem ofSignedBytes_toSignedBytes (v : Varint) : ofSignedBytes v.toSignedBytes = v := by
  apply toInt_injective
  rw [toInt_ofSignedBytes, toInt_toSignedBytes]

/-! ## The shortest bytes -/

/-- No byte in front only repeats the sign. -/
def IsShortest (b : Bytes) : Prop :=
  ∀ x y rest, b = x :: y :: rest → ¬ (x = 0 ∧ y < 0x80) ∧ ¬ (x = 0xFF ∧ 0x80 ≤ y)

theorem toSignedBytes_ne_nil (v : Varint) : v.toSignedBytes ≠ [] := by
  intro h
  have hz : v.toInt = 0 := by rw [← toInt_toSignedBytes, h]; rfl
  rw [toSignedBytes, if_pos ((isZero_iff v).mpr hz)] at h
  simp at h

theorem isShortest_dropSignBytes {b : Bytes} (h : Bytes.signBit b = true) :
    IsShortest (dropSignBytes b) := by
  induction b using dropSignBytes.induct with
  | case1 x y rest hxy ih =>
    rw [dropSignBytes, if_pos hxy]
    apply ih
    simp only [Bool.and_eq_true, beq_iff_eq, decide_eq_true_eq] at hxy
    simpa [Bytes.signBit, UInt8.le_iff_toNat_le] using hxy.2
  | case2 x y rest hxy =>
    rw [dropSignBytes, if_neg hxy]
    rintro x' y' rest' heq
    simp only [List.cons.injEq] at heq
    obtain ⟨rfl, rfl, rfl⟩ := heq
    constructor
    · rintro ⟨rfl, -⟩
      simp [Bytes.signBit] at h
    · intro hff
      exact hxy (by simpa using hff)
  | case3 b hb =>
    rw [dropSignBytes]
    · rintro x y rest rfl
      exact absurd rfl (hb x y rest)
    · exact hb

theorem isShortest_toSignedBytes (v : Varint) : IsShortest v.toSignedBytes := by
  rw [toSignedBytes]
  split
  · intro x y rest h
    simp at h
  · have hhead := Limbs.head_toBytes v.magnitude
    generalize Limbs.toBytes v.magnitude = m at hhead
    dsimp only
    split
    · apply isShortest_dropSignBytes
      split
      · assumption
      · rfl
    · split
      · rename_i hs
        rintro x y rest h
        simp only [List.cons.injEq] at h
        obtain ⟨rfl, rfl⟩ := h
        simp only [Bytes.signBit, decide_eq_true_eq] at hs
        simp [UInt8.lt_iff_toNat_lt]
        omega
      · rename_i hs
        rintro x y rest rfl
        simp only [Bytes.signBit, decide_eq_true_eq] at hs
        simp only [List.head?_cons, ne_eq, Option.some.injEq] at hhead
        refine ⟨fun h => hhead h.1, ?_⟩
        rintro ⟨rfl, -⟩
        simp at hs

section

variable {x y : UInt8} {rest : Bytes}

theorem signBit_rest : Bytes.signBit (y :: rest) = true ↔ 0x80 ≤ y := by
  simp [Bytes.signBit, UInt8.le_iff_toNat_le]

theorem below_of_front (hs : Bytes.signBit (x :: y :: rest) = true) (h : ¬ (x = 0xFF ∧ 0x80 ≤ y)) :
    2 * Bytes.toInt (x :: y :: rest) < -(256 ^ (y :: rest).length : Int) := by
  have hx := x.toNat_lt
  have hlt := Bytes.toNat_lt (y :: rest)
  have hhalf := Bytes.signBit_iff (y :: rest)
  rw [signBit_rest] at hhalf
  have hall : (256 : Int) ^ (x :: y :: rest).length = 256 ^ (y :: rest).length * 256 := pow_succ _ _
  rw [Bytes.toInt_of_signBit hs, Bytes.toNat_cons, hall]
  generalize hP : 256 ^ (y :: rest).length = P at *
  have hPi : (256 : Int) ^ (y :: rest).length = P := by exact_mod_cast congrArg Nat.cast hP
  rw [hPi]
  push_cast
  by_cases hff : x.toNat = 255
  · have hy : ¬ 0x80 ≤ y := fun hy => h ⟨UInt8.toNat_inj.mp (by simpa using hff), hy⟩
    rw [hhalf] at hy
    rw [hff]
    omega
  · have := Nat.mul_le_mul_right P (show x.toNat ≤ 254 by omega)
    omega

theorem above_of_front (hs : Bytes.signBit (x :: y :: rest) = false) (h : ¬ (x = 0 ∧ y < 0x80)) :
    (256 ^ (y :: rest).length : Int) ≤ 2 * Bytes.toInt (x :: y :: rest) := by
  have hhalf := Bytes.signBit_iff (y :: rest)
  rw [signBit_rest] at hhalf
  rw [Bytes.toInt_of_not_signBit hs, Bytes.toNat_cons]
  generalize hP : 256 ^ (y :: rest).length = P at *
  have hPi : (256 : Int) ^ (y :: rest).length = P := by exact_mod_cast congrArg Nat.cast hP
  rw [hPi]
  push_cast
  by_cases hzero : x.toNat = 0
  · have hy : 0x80 ≤ y := by
      by_contra hy
      exact h ⟨UInt8.toNat_inj.mp (by simpa using hzero), by simpa using hy⟩
    rw [hhalf] at hy
    rw [hzero]
    omega
  · have := Nat.mul_le_mul_right P (show 1 ≤ x.toNat by omega)
    omega

end

theorem IsShortest.length_le {b c : Bytes} (hb : IsShortest b) (hc : c ≠ [])
    (h : Bytes.toInt b = Bytes.toInt c) : b.length ≤ c.length := by
  have hcpos := List.length_pos_of_ne_nil hc
  match b, hb with
  | [], _ => simp
  | [_], _ => exact hcpos
  | x :: y :: rest, hb =>
    by_contra hlen
    obtain ⟨hzero, hff⟩ := hb x y rest rfl
    obtain ⟨hlow, hhigh⟩ := Bytes.toInt_bounds c
    have hpow : (256 ^ c.length : Int) ≤ 256 ^ (y :: rest).length := by
      apply pow_le_pow_right₀ (by norm_num)
      simp only [List.length_cons, not_le] at hlen ⊢
      omega
    rw [← h] at hlow hhigh
    cases hs : Bytes.signBit (x :: y :: rest) with
    | true =>
      have := below_of_front hs hff
      omega
    | false =>
      have := above_of_front hs hzero
      omega

theorem length_rewrite_le {b : Bytes} (h : b ≠ []) : (ofSignedBytes b).toSignedBytes.length ≤ b.length := by
  apply (isShortest_toSignedBytes _).length_le h
  rw [toInt_toSignedBytes, toInt_ofSignedBytes]

/-! ## One shortest form -/

/-- Among the bytes that denote an integer, none are fewer. No bytes at all are not counted. -/
def ShortestOf (i : Int) (b : Bytes) : Prop :=
  b ≠ [] ∧ Bytes.toInt b = i ∧ ∀ c : Bytes, c ≠ [] → Bytes.toInt c = i → b.length ≤ c.length

theorem IsShortest.shortestOf {b : Bytes} (hb : IsShortest b) (hne : b ≠ []) :
    ShortestOf (Bytes.toInt b) b := by
  refine ⟨hne, rfl, ?_⟩
  intro c hc hi
  exact hb.length_le hc hi.symm

theorem ShortestOf.unique {i : Int} {b c : Bytes} (hb : ShortestOf i b) (hc : ShortestOf i c) :
    b = c := by
  obtain ⟨hbne, hbi, hble⟩ := hb
  obtain ⟨hcne, hci, hcle⟩ := hc
  have hlength : b.length = c.length := Nat.le_antisymm (hble c hcne hci) (hcle b hbne hbi)
  rw [← Bytes.ofInt_toInt b, ← Bytes.ofInt_toInt c, hlength, hbi, hci]

theorem shortestOf_toSignedBytes (v : Varint) : ShortestOf v.toInt v.toSignedBytes := by
  have h := (isShortest_toSignedBytes v).shortestOf (toSignedBytes_ne_nil v)
  rwa [toInt_toSignedBytes] at h

/-- Bytes that were read are written again as they were if and only if they are the shortest. -/
theorem toSignedBytes_ofSignedBytes_iff (b : Bytes) :
    (ofSignedBytes b).toSignedBytes = b ↔ b ≠ [] ∧ IsShortest b := by
  constructor
  · intro h
    rw [← h]
    exact ⟨toSignedBytes_ne_nil _, isShortest_toSignedBytes _⟩
  · rintro ⟨hne, hb⟩
    have hwritten := shortestOf_toSignedBytes (ofSignedBytes b)
    rw [toInt_ofSignedBytes] at hwritten
    exact hwritten.unique (hb.shortestOf hne)

/-- The wire form is two's complement: bytes are read as the integer that they denote, and an
integer is written as the one shortest form of it. -/
theorem signedBytes_twos_complement :
    (∀ b : Bytes, (ofSignedBytes b).toInt = Bytes.toInt b) ∧
      (∀ (v : Varint) (b : Bytes), v.toSignedBytes = b ↔ ShortestOf v.toInt b) ∧
      (∀ v : Varint, ofSignedBytes v.toSignedBytes = v) ∧
      (∀ b : Bytes, (ofSignedBytes b).toSignedBytes = b ↔ b ≠ [] ∧ IsShortest b) ∧
      ∀ b : Bytes, ShortestOf (Bytes.toInt b) (ofSignedBytes b).toSignedBytes := by
  refine ⟨toInt_ofSignedBytes, ?_, ofSignedBytes_toSignedBytes, toSignedBytes_ofSignedBytes_iff, ?_⟩
  · intro v b
    constructor
    · rintro rfl
      exact shortestOf_toSignedBytes v
    · exact (shortestOf_toSignedBytes v).unique
  · intro b
    rw [← toInt_ofSignedBytes]
    exact shortestOf_toSignedBytes _

/-- 128 needs a sign byte and -128 does not; a byte that repeats the sign is dropped. -/
example : (ofSignedBytes [0x00, 0x80]).toSignedBytes = [0x00, 0x80] ∧
    (ofSignedBytes [0xFF, 0x80]).toSignedBytes = [0x80] := by decide

end Varint

end WideRow
