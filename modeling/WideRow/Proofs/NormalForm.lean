import WideRow.Proofs.DecimalGrammar
import WideRow.Proofs.Descriptions
import WideRow.Proofs.Narrowing
import WideRow.Proofs.Rescaling
import WideRow.Value.Digest

/-!
# The normal form of integers

However an integer was obtained, its limbs are the one numeral of its magnitude in base `2 ^ 32`, and
its sign is set below zero only. So sign and limbs are compared in place of the integers.
-/

namespace WideRow

namespace Varint

/-! ## Obtaining integers -/

/-- The ways to obtain an integer, each with the integer that its input denotes. -/
inductive Obtained : Varint → Int → Prop where
  | zero : Obtained zero 0
  | ofSignedBytes (b : Bytes) : Obtained (ofSignedBytes b) (Bytes.toInt b)
  | ofInt64 (i : Int64) : Obtained (ofInt64 i) i.toInt
  | parse {s : String} {v : Varint} {i : Int} (hnumeral : Text.Numeral (Text.trim s).toList i)
      (h : parse s = .ok v) : Obtained v i
  | decimalOfInt64 (i : Int64) : Obtained (Decimal.ofInt64 i).unscaled i.toInt
  | decimalOfBytes {b : Bytes} {d : Decimal} (h : Decimal.ofBytes b = .ok d) :
      Obtained d.unscaled (Bytes.toInt (b.drop 4))
  | decimalParse {s : String} {d : Decimal} {p : Decimal.Parts} {gap : List Char}
      (hspells : p.Spells gap (Text.trim s).toList) (hfits : p.Fits) (h : Decimal.parse s = .ok d) :
      Obtained d.unscaled p.unscaled
  | scaleUp {d e : Decimal} {scale : Int32} {i : Int} {k : Nat} (hd : Obtained d.unscaled i)
      (hscale : scale.toInt = d.scale.toInt + k) (h : d.withScale scale = .ok e) :
      Obtained e.unscaled (i * 10 ^ k)
  | scaleDown {d e : Decimal} {scale : Int32} {i : Int} {k : Nat} (hd : Obtained d.unscaled (i * 10 ^ k))
      (hscale : d.scale.toInt = scale.toInt + k) (h : d.withScale scale = .ok e) :
      Obtained e.unscaled i

theorem toInt_ofDecimalBytes {b : Bytes} {d : Decimal} (h : Decimal.ofBytes b = .ok d) :
    d.unscaled.toInt = Bytes.toInt (b.drop 4) := by
  unfold Decimal.ofBytes at h
  split at h
  · simp at h
  · simp at h
    rw [← h, toInt_ofSignedBytes]

/-- Every way gives the integer that is denoted. -/
theorem Obtained.toInt_eq {v : Varint} {i : Int} (h : Obtained v i) : v.toInt = i := by
  induction h with
  | zero => rfl
  | ofSignedBytes b => exact toInt_ofSignedBytes b
  | ofInt64 i => exact toInt_ofInt64 i
  | parse hnumeral h => exact Decimal.numeral_unique (parse_eq_ok_iff.mp h) hnumeral
  | decimalOfInt64 i => exact toInt_ofInt64 i
  | decimalOfBytes h => exact toInt_ofDecimalBytes h
  | decimalParse hspells hfits h =>
    obtain ⟨d, hd, hvalue, -⟩ := Decimal.parse_of_spells hspells hfits
    rw [h] at hd
    cases hd
    exact hvalue
  | scaleUp _ hscale h ih =>
    obtain ⟨-, rfl, hvalue⟩ := Decimal.withScale_eq_ok_iff.mp h
    rw [(Decimal.value_eq_iff hscale).mp hvalue, ih]
  | scaleDown _ hscale h ih =>
    obtain ⟨-, rfl, hvalue⟩ := Decimal.withScale_eq_ok_iff.mp h
    have hmul := (Decimal.value_eq_iff hscale).mp hvalue.symm
    rw [ih] at hmul
    exact (mul_right_cancel₀ (by positivity) hmul).symm

/-! ## Sign and limbs -/

/-- The sign and the limbs of an integer in normal form. -/
structure Represents (v : Varint) (i : Int) : Prop where
  limbs : v.magnitude.map UInt32.toNat = Nat.digits 4294967296 i.natAbs
  negative : v.negative = true ↔ i < 0

theorem represents_toInt (v : Varint) : Represents v v.toInt where
  limbs := by rw [natAbs_toInt, Limbs.map_eq_digits v.isTrimmed]
  negative := negative_iff v

theorem negative_ofSignAndLimbs (negative : Bool) (l : Limbs) :
    (ofSignAndLimbs negative l).negative = true ↔ negative = true ∧ Limbs.toNat l ≠ 0 := by
  rw [negative_iff, toInt_ofSignAndLimbs]
  cases negative <;> simp
  omega

/-! ## Comparing -/

theorem eq_iff_toInt {v w : Varint} : v = w ↔ v.toInt = w.toInt :=
  ⟨congrArg toInt, toInt_injective⟩

theorem compare_congr {m n : Nat} {i j : Int} (hlt : m < n ↔ i < j) (heq : m = n ↔ i = j) :
    compare m n = compare i j := by
  simp only [compare, compareOfLessAndEq, hlt, heq]

theorem order_eq (v w : Varint) : v.order w = compare v.toInt w.toInt := by
  have hv := negative_iff v
  have hw := negative_iff w
  have hmagnitudes := Limbs.order_eq v.isTrimmed w.isTrimmed
  have hswapped := Limbs.order_eq w.isTrimmed v.isTrimmed
  rw [← natAbs_toInt, ← natAbs_toInt] at hmagnitudes hswapped
  unfold order
  cases hvn : v.negative <;> cases hwn : w.negative <;> simp only [hvn, hwn] at hv hw ⊢
  · rw [hmagnitudes]
    apply compare_congr <;> simp at hv hw <;> omega
  · exact (compare_gt_iff_gt.mpr (by simp at hv hw; omega)).symm
  · exact (compare_lt_iff_lt.mpr (by simp at hv hw; omega)).symm
  · -- Below zero the greater magnitude is the lesser integer.
    rw [hswapped]
    apply compare_congr <;> simp at hv hw <;> omega

theorem describe_injective {v w : Varint} (h : Value.describeVarint v = Value.describeVarint w) :
    v = w :=
  (Value.describeVarint_append_inj (congrArg (· ++ []) h)).1

theorem digests_eq_iff {v w : Varint} :
    (∀ digest : Digest, digest (Value.describeVarint v) = digest (Value.describeVarint w)) ↔
      v.toInt = w.toInt := by
  -- Whatever the digest, equal integers have one; and they alone, as a digest may tell all others
  -- apart.
  constructor
  · intro h
    have hmarked := h fun numbers => if numbers = Value.describeVarint v then 1 else 0
    by_cases hdescribed : Value.describeVarint w = Value.describeVarint v
    · rw [describe_injective hdescribed]
    · simp [hdescribed] at hmarked
  · intro h digest
    rw [toInt_injective h]

/-- Whatever sign and limbs an integer is built from, only zero limbs are taken off the top, and the
sign only of zero. So however an integer was obtained, its limbs are the digits of its magnitude in
base `2 ^ 32`, the topmost not zero, and its sign is that of the integer. Integers obtained in any
two ways are then equal, have the same digests and compare as the integers that were denoted. -/
theorem normal_form :
    (∀ (negative : Bool) (l : Limbs),
      (∃ zeros, l = (ofSignAndLimbs negative l).magnitude ++ List.replicate zeros 0) ∧
        ((ofSignAndLimbs negative l).negative = true ↔ negative = true ∧ Limbs.toNat l ≠ 0)) ∧
    (∀ v i, Obtained v i → v.toInt = i ∧ Represents v i ∧ v.magnitude.getLast? ≠ some 0 ∧
      (i = 0 → v.negative = false)) ∧
    ∀ v w i j, Obtained v i → Obtained w j → (v = w ↔ i = j) ∧
      ((∀ digest : Digest, digest (Value.describeVarint v) = digest (Value.describeVarint w)) ↔
        i = j) ∧
      v.order w = compare i j := by
  refine ⟨?_, ?_, ?_⟩
  · intro negative l
    exact ⟨Limbs.trim_append_zeros l, negative_ofSignAndLimbs negative l⟩
  · intro v i h
    obtain rfl := h.toInt_eq
    have hsign := negative_iff v
    refine ⟨rfl, represents_toInt v, v.isTrimmed, ?_⟩
    intro hzero
    simpa [hzero] using hsign
  · intro v w i j hv hw
    obtain rfl := hv.toInt_eq
    obtain rfl := hw.toInt_eq
    exact ⟨eq_iff_toInt, digests_eq_iff, order_eq v w⟩

/-- A magnitude of a second limb, from five bytes and from a numeral, and a zero that was negative. -/
theorem normal_form_three_ways :
    (Obtained (ofSignedBytes [0xFF, 0, 0, 0, 0]) (-4294967296) ∧
      Obtained (ofInt64 (-4294967296)) (-4294967296) ∧
      ofSignedBytes [0xFF, 0, 0, 0, 0] = ofInt64 (-4294967296)) ∧
    ∃ v, parse "-000" = .ok v ∧ Obtained v 0 ∧ v.negative = false ∧
      (ofInt64 (-4294967296)).order v = .lt := by
  obtain ⟨-, hnormal, hcompared⟩ := normal_form
  have hread : Bytes.toInt [0xFF, 0, 0, 0, 0] = -4294967296 := by decide
  have hwide : (-4294967296 : Int64).toInt = -4294967296 := by decide
  have hbytes : Obtained (ofSignedBytes [0xFF, 0, 0, 0, 0]) (-4294967296) := by
    rw [← hread]
    exact .ofSignedBytes _
  have hword : Obtained (ofInt64 (-4294967296)) (-4294967296) := by
    rw [← hwide]
    exact .ofInt64 _
  have hnumeral : Text.Numeral (Text.trim "-000").toList 0 := by
    have htrimmed : (Text.trim "-000").toList = '-' :: ['0', '0', '0'] := by decide
    rw [htrimmed]
    exact .minus (by simp) (by simp)
  obtain ⟨v, hv⟩ := parse_of_numeral hnumeral
  have hzero : Obtained v 0 := .parse hnumeral hv
  refine ⟨⟨hbytes, hword, (hcompared _ _ _ _ hbytes hword).1.mpr rfl⟩, v, hv, hzero,
    (hnormal v 0 hzero).2.2.2 rfl, ?_⟩
  rw [(hcompared _ _ _ _ hword hzero).2.2]
  decide

end Varint

end WideRow
