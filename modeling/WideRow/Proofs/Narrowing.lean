import WideRow.Proofs.Limbs
import WideRow.Row.Cell

/-!
# Integers of 64 bits

An integer of any size is given as a 64-bit one where it is one, or else by its lowest 64 bits. What
a column of integers gives is the last eight bytes of it, sign bytes in front if there are too few.
-/

namespace WideRow

/-! ## Eight bytes of a string -/

namespace Bytes

/-- The last bytes of a string, with sign bytes in front if there are too few. -/
def lastBytes (width : Nat) (b : Bytes) : Bytes :=
  List.replicate (width - b.length) (if signBit b then 0xFF else 0) ++ b.drop (b.length - width)

theorem length_lastBytes (width : Nat) (b : Bytes) : (lastBytes width b).length = width := by
  simp [lastBytes]
  omega

theorem toNat_zeros (k : Nat) : toNat (List.replicate k 0) = 0 := by
  induction k with
  | zero => rfl
  | succ k ih => simp [List.replicate_succ, toNat_cons, ih]

theorem toNat_ones (k : Nat) : toNat (List.replicate k 0xFF) + 1 = 256 ^ k := by
  induction k with
  | zero => rfl
  | succ k ih =>
    simp [List.replicate_succ, toNat_cons, pow_succ]
    omega

theorem toNat_lastBytes_of_le {width : Nat} {b : Bytes} (h : width ≤ b.length) :
    (toNat (lastBytes width b) : Int) = toInt b % 256 ^ width := by
  have hlength : (b.drop (b.length - width)).length = width := by
    simp
    omega
  have hpad : width - b.length = 0 := by omega
  have hlast : lastBytes width b = b.drop (b.length - width) := by simp [lastBytes, hpad]
  have hsplit := toNat_append (b.take (b.length - width)) (b.drop (b.length - width))
  have hlt := toNat_lt (b.drop (b.length - width))
  rw [List.take_append_drop, hlength] at hsplit
  rw [hlength] at hlt
  rw [hlast, ← Int.emod_emod_of_dvd (toInt b) (pow_dvd_pow 256 h), toInt_emod]
  norm_cast
  rw [hsplit, Nat.mul_add_mod', Nat.mod_eq_of_lt hlt]

theorem toNat_lastBytes_of_ge {width : Nat} {b : Bytes} (h : b.length ≤ width) :
    (toNat (lastBytes width b) : Int) = toInt b % 256 ^ width := by
  have hrange := toNat_lt (lastBytes width b)
  rw [length_lastBytes] at hrange
  have hcut : b.length - width = 0 := by omega
  have hvalue : toNat (lastBytes width b) =
      toNat (List.replicate (width - b.length) (if signBit b then 0xFF else 0)) * 256 ^ b.length +
        toNat b := by
    simp [lastBytes, hcut, toNat_append]
  cases hsign : signBit b with
  | false =>
    simp [hsign, toNat_zeros] at hvalue
    rw [toInt_of_not_signBit hsign, ← hvalue]
    norm_cast
    rw [Nat.mod_eq_of_lt hrange]
  | true =>
    -- The sign bytes are one less than their own range, which makes up for the range of the bytes.
    have hones : (toNat (List.replicate (width - b.length) 0xFF) + 1) * 256 ^ b.length = 256 ^ width := by
      rw [toNat_ones, ← pow_add, Nat.sub_add_cancel h]
    rw [Nat.add_mul, Nat.one_mul] at hones
    simp [hsign] at hvalue
    have hshift : toInt b = toNat (lastBytes width b) + 256 ^ width * (-1) := by
      rw [toInt_of_signBit hsign]
      zify at hones hvalue
      omega
    rw [hshift, Int.add_mul_emod_self_left]
    norm_cast
    rw [Nat.mod_eq_of_lt hrange]

theorem toInt_lastBytes_emod (width : Nat) (b : Bytes) :
    toInt (lastBytes width b) % 256 ^ width = toInt b % 256 ^ width := by
  have hlow := toInt_emod (lastBytes width b)
  rw [length_lastBytes] at hlow
  rw [hlow]
  obtain h | h := Nat.le_total width b.length
  · exact toNat_lastBytes_of_le h
  · exact toNat_lastBytes_of_ge h

end Bytes

namespace Varint

/-! ## The lowest 64 bits -/

theorem toNat_lowWord (v : Varint) :
    v.lowWord.toNat = Limbs.toNat v.magnitude % 18446744073709551616 := by
  unfold lowWord
  split
  · rename_i h
    simp [h, Limbs.toNat]
  · rename_i x h
    have := x.toNat_lt
    simp [h, Limbs.toNat]
  · rename_i x y rest h
    have hx := x.toNat_lt
    have hy := y.toNat_lt
    have hfits : y.toNat <<< 32 < 2 ^ 64 := by
      rw [Nat.shiftLeft_eq]
      omega
    have hword : (y.toUInt64 <<< 32 ||| x.toUInt64).toNat = y.toNat <<< 32 + x.toNat := by
      rw [Nat.shiftLeft_add_eq_or_of_lt hx, UInt64.toNat_or, UInt64.toNat_shiftLeft]
      exact congrArg (· ||| x.toNat) (Nat.mod_eq_of_lt hfits)
    rw [hword, h, Nat.shiftLeft_eq]
    simp only [Limbs.toNat]
    omega

theorem toInt_toInt64 (x : UInt64) : x.toInt64.toInt = (x.toNat : Int).bmod 18446744073709551616 := by
  rw [← Int64.toInt_toBitVec, BitVec.toInt_eq_toNat_bmod]
  rfl

theorem toInt_toInt64_emod (x : UInt64) :
    x.toInt64.toInt % 18446744073709551616 = (x.toNat : Int) % 18446744073709551616 := by
  rw [toInt_toInt64]
  exact Int.bmod_emod

theorem toInt64Wrapping_emod (v : Varint) :
    v.toInt64Wrapping.toInt % 18446744073709551616 = v.toInt % 18446744073709551616 := by
  have hlow := toNat_lowWord v
  unfold toInt64Wrapping toInt
  split
  · rw [toInt_toInt64_emod, UInt64.toNat_neg]
    simp only [UInt64.size]
    omega
  · rw [toInt_toInt64_emod]
    omega

theorem toInt64Wrapping_toInt {v : Varint}
    (h : -9223372036854775808 ≤ v.toInt ∧ v.toInt < 9223372036854775808) :
    v.toInt64Wrapping.toInt = v.toInt := by
  have hlow := v.toInt64Wrapping.le_toInt
  have hhigh := v.toInt64Wrapping.toInt_lt
  have hmod := toInt64Wrapping_emod v
  omega

theorem toInt64?_eq (v : Varint) :
    v.toInt64? = if -9223372036854775808 ≤ v.toInt ∧ v.toInt < 9223372036854775808
      then some v.toInt64Wrapping else none := by
  have hlow := toNat_lowWord v
  have hmagnitude := natAbs_toInt v
  have hsign := negative_iff v
  unfold toInt64?
  split
  · rename_i hmany
    have hlarge : 4294967296 ^ 2 ≤ Limbs.toNat v.magnitude := Limbs.pow_le_toNat v.isTrimmed hmany
    rw [if_neg (by omega)]
  · rename_i hfew
    have hpow : 4294967296 ^ v.magnitude.length ≤ 4294967296 ^ 2 :=
      Nat.pow_le_pow_right (by decide) (by omega)
    have hsmall := Limbs.toNat_lt v.magnitude
    -- So few limbs are the lowest 64 bits, and only the sign bit may be in the way.
    unfold toInt64Wrapping
    simp only [UInt64.le_iff_toNat_le, UInt64.reduceToNat]
    cases hnegative : v.negative with
    | false =>
      simp [hnegative] at hsign ⊢
      split <;> simp <;> omega
    | true =>
      simp [hnegative] at hsign ⊢
      split <;> simp <;> omega

theorem toInt_ofInt64 (i : Int64) : (ofInt64 i).toInt = i.toInt := by
  have hlow := i.le_toInt
  have hhigh := i.toInt_lt
  have hnegative : (decide (i < 0)) = true ↔ i.toInt < 0 := by simp [Int64.lt_iff_toInt_lt]
  unfold ofInt64
  rw [toInt_ofSignAndLimbs]
  simp only [Limbs.toNat, hnegative, UInt32.toNat_ofNat']
  split <;> omega

theorem toInt64Wrapping_ofInt64 (i : Int64) : (ofInt64 i).toInt64Wrapping = i := by
  have hlow := i.le_toInt
  have hhigh := i.toInt_lt
  have hrange := toInt64Wrapping_toInt (v := ofInt64 i) (by rw [toInt_ofInt64]; omega)
  rw [toInt_ofInt64] at hrange
  exact Int64.toInt_inj.mp hrange

theorem toInt64?_eq_some_iff {v : Varint} {i : Int64} :
    v.toInt64? = some i ↔ i.toInt = v.toInt := by
  have hlow := i.le_toInt
  have hhigh := i.toInt_lt
  rw [toInt64?_eq]
  split
  · rename_i hrange
    rw [Option.some.injEq, ← Int64.toInt_inj, toInt64Wrapping_toInt hrange]
    exact eq_comm
  · simp
    omega

/-! ## Columns -/

theorem wideInteger_eq {c : Cell} {b : Bytes} (htype : c.type.kind = .scalar .varint)
    (hraw : c.raw = some b) (hne : b ≠ []) :
    c.wideInteger = .ok (ofSignedBytes b).toInt64Wrapping := by
  unfold Cell.wideInteger Cell.read
  simp only [hraw, htype, Scalar.decodeVarint, List.isEmpty_iff, hne, if_false]
  rfl

theorem toInt_toInt64Wrapping_ofSignedBytes (b : Bytes) :
    (ofSignedBytes b).toInt64Wrapping.toInt = Bytes.toInt (Bytes.lastBytes 8 b) := by
  have hlow := (ofSignedBytes b).toInt64Wrapping.le_toInt
  have hhigh := (ofSignedBytes b).toInt64Wrapping.toInt_lt
  have hwrapped := toInt64Wrapping_emod (ofSignedBytes b)
  have hbounds := Bytes.toInt_bounds (Bytes.lastBytes 8 b)
  have hlast := Bytes.toInt_lastBytes_emod 8 b
  rw [toInt_ofSignedBytes] at hwrapped
  rw [Bytes.length_lastBytes] at hbounds
  omega

/-- An integer of any size is given as a 64-bit one exactly if it is one, and otherwise by the 64-bit
integer that is congruent to it; a 64-bit integer comes back from both. A column of integers gives
the one that its last eight bytes denote, sign bytes in front if there are fewer. -/
theorem narrowing_exact :
    (∀ (v : Varint) (i : Int64), v.toInt64? = some i ↔ i.toInt = v.toInt) ∧
      (∀ v : Varint, (∃ i, v.toInt64? = some i) ↔ -2 ^ 63 ≤ v.toInt ∧ v.toInt < 2 ^ 63) ∧
      (∀ v : Varint, v.toInt64Wrapping.toInt ≡ v.toInt [ZMOD 2 ^ 64]) ∧
      (∀ i : Int64, (ofInt64 i).toInt64? = some i ∧ (ofInt64 i).toInt64Wrapping = i) ∧
      ∀ (c : Cell) (b : Bytes), c.type.kind = .scalar .varint → c.raw = some b → b ≠ [] →
        ∃ i, c.wideInteger = .ok i ∧ i.toInt = Bytes.toInt (Bytes.lastBytes 8 b) := by
  refine ⟨fun _ _ => toInt64?_eq_some_iff, ?_, ?_, ?_, ?_⟩
  · intro v
    rw [toInt64?_eq]
    norm_num
  · exact toInt64Wrapping_emod
  · intro i
    exact ⟨toInt64?_eq_some_iff.mpr (toInt_ofInt64 i).symm, toInt64Wrapping_ofInt64 i⟩
  · intro c b htype hraw hne
    exact ⟨_, wideInteger_eq htype hraw hne, toInt_toInt64Wrapping_ofSignedBytes b⟩

/-- Of nine bytes the first is cut off, and the sign bit of the second becomes that of the number. -/
theorem narrowing_exact_nine_bytes :
    let c : Cell := ⟨"total", .scalar .varint, some [0x01, 0x80, 0, 0, 0, 0, 0, 0, 0x05]⟩
    (c.type.kind = .scalar .varint ∧ c.raw = some [0x01, 0x80, 0, 0, 0, 0, 0, 0, 0x05]) ∧
      ∃ i, c.wideInteger = .ok i ∧ i.toInt = -9223372036854775803 := by
  intro c
  refine ⟨⟨rfl, rfl⟩, ?_⟩
  obtain ⟨-, -, -, -, hcolumn⟩ := narrowing_exact
  obtain ⟨i, hread, hvalue⟩ := hcolumn c _ rfl rfl (by simp)
  exact ⟨i, hread, hvalue.trans (by decide)⟩

end Varint

end WideRow
