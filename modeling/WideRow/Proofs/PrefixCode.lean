import WideRow.Proofs.DecodeInPlace

/-!
# Integers of variable length as a prefix code

An integer is written behind what is there already: first its bytes, the topmost first, as many as
its leading zero bits leave, and then the marker into the first of them. The marker tells where the
integer ends, so no written integer begins another one, and none is read from a part of its bytes.
-/

namespace WideRow

open Result

/-! ## The top byte -/

theorem Bytes.ofNat_succ_top (width n : Nat) :
    Bytes.ofNat (width + 1) n = UInt8.ofNat (n / 256 ^ width) :: Bytes.ofNat width n := by
  apply Bytes.eq_of_toNat
  · simp
  · rw [Bytes.toNat_cons, Bytes.length_ofNat, Bytes.toNat_ofNat, Bytes.toNat_ofNat,
      UInt8.toNat_ofNat', pow_succ, Nat.mod_mul]
    ring

namespace InPlace

variable {ε : Type} {limit : Nat}

/-! ## Writing in place -/

/-- How many zero bits stand in front of the first one of 64 bits. -/
def leadingZeros (v : UInt64) : Nat :=
  if v = 0 then 64 else 63 - Nat.log2 v.toNat

/-- How many bytes an integer takes, by the zero bits in front of it. -/
def vintSize (v : UInt64) : Checked ε Nat := do
  let scaled ← sub 639 (leadingZeros (v ||| 1) * 9)
  return scaled >>> 6

/-- The byte of an integer above so many lower bits. Above all 64 there is a zero byte. -/
def byteAbove (v : UInt64) (shift : Nat) : Checked ε UInt8 :=
  if 64 ≤ shift then .ok 0
  else do
    let amount ← shiftAmount shift
    return (v >>> amount).toUInt8

/-- Pushes so many bytes of an integer, the topmost first. -/
def pushBytes (v : UInt64) : Nat → Bytes → Checked ε Bytes
  | 0, out => .ok out
  | left + 1, out => do
    let x ← byteAbove v (8 * left)
    pushBytes v left (out ++ [x])

/-- Sets so many leading bits of the byte at a position. -/
def markByte (out : Bytes) (start extra : Nat) : Checked ε Bytes := do
  let x ← byte out start
  let amount ← upTo 31 extra
  return out.set start (x ||| (~~~(0xFF >>> UInt32.ofNat amount : UInt32)).toUInt8)

/-- Writes an integer behind the bytes that are there. -/
def pushVint (out : Bytes) (v : UInt64) : Checked ε Bytes := do
  let size ← vintSize v
  let extra ← sub size 1
  let pushed ← pushBytes v size out
  markByte pushed out.length extra

/-! ## What is written -/

theorem log2_or_one (n : Nat) : Nat.log2 (n ||| 1) = Nat.log2 n := by
  by_cases h : n = 0
  · rw [h]
    rfl
  · have hle : n ≤ n ||| 1 := Nat.left_le_or
    apply Nat.le_antisymm
    · apply Nat.le_of_lt_succ
      rw [Nat.log2_lt (by omega)]
      exact Nat.or_lt_two_pow Nat.lt_log2_self (Nat.one_lt_two_pow (by omega))
    · rw [Nat.le_log2 (by omega)]
      exact le_trans (Nat.log2_self_le h) hle

theorem leadingZeros_or_one (v : UInt64) : leadingZeros (v ||| 1) = 63 - Nat.log2 v.toNat := by
  have hone : (v ||| 1).toNat = v.toNat ||| 1 := by simp
  have hne : v ||| 1 ≠ 0 := by
    intro h
    have hzero := congrArg UInt64.toNat h
    have hpos : 1 ≤ v.toNat ||| 1 := Nat.right_le_or
    rw [hone, UInt64.toNat_zero] at hzero
    omega
  unfold leadingZeros
  rw [if_neg hne, hone, log2_or_one]

theorem vintSize_eq (v : UInt64) : vintSize v = (.ok (Vint.extraBytes v + 1) : Checked ε Nat) := by
  -- The size has a closed form in the leading zero bits, of which there are 63 at most.
  have hclosed : ∀ log < 64, (639 - (63 - log) * 9) >>> 6 = min 8 (log / 7) + 1 := by decide
  have hlog : Nat.log2 v.toNat < 64 := by
    by_cases h : v.toNat = 0
    · simp [h]
    · rw [Nat.log2_lt h]
      exact v.toNat_lt
  unfold vintSize
  rw [leadingZeros_or_one, sub_ok (by omega), ok_bind, hclosed _ hlog]
  rfl

theorem byteAbove_eq (v : UInt64) (left : Nat) :
    byteAbove v (8 * left) = (.ok (UInt8.ofNat (v.toNat / 256 ^ left)) : Checked ε UInt8) := by
  have hpow : 2 ^ (8 * left) = 256 ^ left := pow_mul 2 8 left
  unfold byteAbove
  split
  · rename_i h
    have hall : 2 ^ 64 ≤ 256 ^ left := hpow ▸ Nat.pow_le_pow_right (by omega) h
    rw [Nat.div_eq_of_lt (lt_of_lt_of_le v.toNat_lt hall)]
    rfl
  · rename_i h
    rw [shiftAmount_ok (by omega), ok_bind, pure_eq]
    congr 1
    apply UInt8.toNat_inj.mp
    have hshift : (UInt64.ofNat (8 * left)).toNat % 64 = 8 * left := by
      rw [UInt64.toNat_ofNat']
      omega
    rw [UInt64.toNat_toUInt8, UInt64.toNat_shiftRight, hshift, Nat.shiftRight_eq_div_pow, hpow,
      UInt8.toNat_ofNat']

theorem pushBytes_eq (v : UInt64) (left : Nat) (out : Bytes) :
    pushBytes v left out = (.ok (out ++ Bytes.ofNat left v.toNat) : Checked ε Bytes) := by
  induction left generalizing out with
  | zero => simp [pushBytes, Bytes.ofNat]
  | succ left ih =>
    unfold pushBytes
    rw [byteAbove_eq, ok_bind, ih, Bytes.ofNat_succ_top]
    simp

theorem or_marker {extra n : Nat} (he : extra ≤ 8) (hn : 2 * n < 2 ^ (8 - extra)) :
    UInt8.ofNat n ||| (~~~(0xFF >>> UInt32.ofNat extra : UInt32)).toUInt8 =
      UInt8.ofNat (Vint.marker extra + n) := by
  have hbytes : ∀ extra < 9, ∀ n < 128, 2 * n < 2 ^ (8 - extra) →
      UInt8.ofNat n ||| (~~~(0xFF >>> UInt32.ofNat extra : UInt32)).toUInt8 =
        UInt8.ofNat (Vint.marker extra + n) := by
    decide +kernel
  have hpow : 2 ^ (8 - extra) ≤ 2 ^ 8 := Nat.pow_le_pow_right (by omega) (by omega)
  exact hbytes extra (by omega) n (by omega) hn

theorem pushVint_eq (out : Bytes) (v : UInt64) :
    pushVint out v = (.ok (out ++ Vint.write v) : Checked ε Bytes) := by
  have hextra := Vint.extraBytes_le v
  unfold pushVint
  rw [vintSize_eq, ok_bind, sub_ok (by omega), ok_bind, pushBytes_eq, ok_bind, Nat.add_sub_cancel,
    Bytes.ofNat_succ_top]
  unfold markByte byte
  simp only [List.getElem?_append_right (Nat.le_refl out.length), Nat.sub_self,
    List.getElem?_cons_zero, ok_bind, upTo_ok (show Vint.extraBytes v ≤ 31 by omega), pure_eq]
  rw [List.set_append_right _ _ (Nat.le_refl _), Nat.sub_self, List.set_cons_zero,
    or_marker hextra (Vint.top_lt v)]
  rfl

/-! ## Reading where it stands -/

theorem takeVint_append {front rest : Bytes} (h : (front ++ rest).length ≤ limit) :
    takeVint limit (front ++ rest) front.length =
      (.ok ((Vint.read rest).map fun (v, tail) => (v, (front ++ rest).length - tail.length)) :
        Checked ε _) := by
  have hplace : (before (front ++ rest) rest).position = front.length := by simp [before]
  rw [← hplace, takeVint_before h (List.suffix_append front rest)]
  rfl

theorem of_takeVint {b : Bytes} {position stop : Nat} {v : UInt64} (hb : b.length ≤ limit)
    (h : takeVint limit b position = (.ok (some (v, stop)) : Checked ε _)) :
    position ≤ b.length ∧
      ∃ tail, Vint.read (b.drop position) = some (v, tail) ∧ stop = b.length - tail.length := by
  by_cases hposition : position ≤ b.length
  · have hplace : (before b (b.drop position)).position = position := by
      simp [before]
      omega
    rw [← hplace, takeVint_before hb (List.drop_suffix position b)] at h
    simp only [Except.ok.injEq] at h
    obtain ⟨⟨w, tail⟩, hvint, hpair⟩ := Option.map_eq_some_iff.mp h
    simp only [Prod.mk.injEq] at hpair
    obtain ⟨rfl, rfl⟩ := hpair
    exact ⟨hposition, tail, hvint, rfl⟩
  · unfold takeVint at h
    rw [List.getElem?_eq_none (by omega)] at h
    simp at h

end InPlace

/-! ## One end for each integer -/

namespace Vint

open InPlace

theorem write_append_inj {v w : UInt64} {r s : Bytes} (h : write v ++ r = write w ++ s) :
    v = w ∧ r = s := by
  have hread := read_write_append v r
  rw [h, read_write_append] at hread
  simp only [Option.some.injEq, Prod.mk.injEq] at hread
  exact ⟨hread.1.symm, hread.2.symm⟩

theorem read_eq_none_of_prefix {v : UInt64} {short : Bytes} (hpart : short <+: write v)
    (hne : short ≠ write v) : read short = none := by
  obtain ⟨missing, hmissing⟩ := hpart
  by_contra hsome
  obtain ⟨⟨w, tail⟩, hread⟩ := Option.ne_none_iff_exists'.mp hsome
  obtain ⟨front, hfront, rfl⟩ := denotes_of_read hread
  have hall := read_denotes hfront (tail ++ missing)
  have hwhole := read_write_append v []
  rw [List.append_nil, ← hmissing, List.append_assoc, hall] at hwhole
  simp only [Option.some.injEq, Prod.mk.injEq, List.append_eq_nil_iff] at hwhole
  apply hne
  rw [← hmissing, hwhole.2.2, List.append_nil]

/-- An integer is written behind what is there, in one to nine bytes, and read from where it stands,
whatever is before and behind it. No reading of it takes fewer bytes, and none succeeds on a part of
its bytes, so none of two written integers begins the other. -/
theorem vints_prefix_code {ε : Type} {limit : Nat} (v : UInt64) (front rest : Bytes)
    (hroom : (front ++ write v ++ rest).length ≤ limit) :
    pushVint front v = (.ok (front ++ write v) : Checked ε Bytes) ∧
      (1 ≤ (write v).length ∧ (write v).length ≤ 9) ∧
      read (write v ++ rest) = some (v, rest) ∧
      takeVint limit (front ++ write v ++ rest) front.length =
        (.ok (some (v, (front ++ write v).length)) : Checked ε _) ∧
      (∀ b position stop, b.length ≤ limit →
        takeVint limit b position = (.ok (some (v, stop)) : Checked ε _) →
          position + (write v).length ≤ stop ∧ stop ≤ b.length) ∧
      (∀ short, short <+: write v → short ≠ write v →
        read short = none ∧
          takeVint limit (front ++ short) front.length = (.ok none : Checked ε _)) ∧
      ∀ w, write v <+: write w → v = w := by
  have hlength := length_write v
  have hextra := extraBytes_le v
  refine ⟨pushVint_eq front v, ⟨by omega, by omega⟩, read_write_append v rest, ?read, ?shortest,
    ?cut, ?apart⟩
  case read =>
    rw [List.append_assoc] at hroom ⊢
    rw [takeVint_append hroom, read_write_append]
    simp
    omega
  case shortest =>
    intro b position stop hb h
    obtain ⟨hposition, tail, hread, rfl⟩ := of_takeVint hb h
    have hshortest := length_write_le hread
    simp at hshortest
    omega
  case cut =>
    intro short hpart hne
    have hnone := read_eq_none_of_prefix hpart hne
    have hle := hpart.length_le
    refine ⟨hnone, ?_⟩
    rw [takeVint_append, hnone]
    · rfl
    · simp at hroom ⊢
      omega
  case apart =>
    rintro w ⟨more, hmore⟩
    rw [← List.append_nil (write w)] at hmore
    exact (write_append_inj hmore).1

/-- The greatest integer of eight bytes, between other bytes and padded to nine, and the next one. -/
theorem vints_prefix_code_eight_bytes :
    let v : UInt64 := 0xFFFFFFFFFFFFFF
    let padded : Bytes := [0xFF, 0, 0xFF, 0xFF, 0xFF, 0xFF, 0xFF, 0xFF, 0xFF]
    write v = [0xFE, 0xFF, 0xFF, 0xFF, 0xFF, 0xFF, 0xFF, 0xFF] ∧
      (([1, 2] : Bytes) ++ write v ++ [3]).length ≤ 11 ∧
      pushVint [1, 2] v = (.ok ([1, 2] ++ write v) : Checked Unit Bytes) ∧
      takeVint 11 ([1, 2] ++ write v ++ [3]) 2 = (.ok (some (v, 10)) : Checked Unit _) ∧
      (padded.length ≤ 11 ∧ takeVint 11 padded 0 = (.ok (some (v, 9)) : Checked Unit _) ∧
        0 + (write v).length ≤ 9) ∧
      ((write v).take 7 <+: write v ∧ (write v).take 7 ≠ write v ∧ read ((write v).take 7) = none ∧
        takeVint 11 ([1, 2] ++ (write v).take 7) 2 = (.ok none : Checked Unit _)) ∧
      (write v <+: write v ∧ v = v) ∧ (write (v + 1)).length = 9 := by
  intro v padded
  have hv : write v = [0xFE, 0xFF, 0xFF, 0xFF, 0xFF, 0xFF, 0xFF, 0xFF] := by decide +kernel
  have hroom : (([1, 2] : Bytes) ++ write v ++ [3]).length ≤ 11 := by decide +kernel
  obtain ⟨hpush, -, -, hread, hshortest, hcut, hapart⟩ :=
    vints_prefix_code (ε := Unit) v [1, 2] [3] hroom
  have hpadded : takeVint 11 padded 0 = (.ok (some (v, 9)) : Checked Unit _) := rfl
  have hpart : (write v).take 7 <+: write v := List.take_prefix 7 _
  have hshort : (write v).take 7 ≠ write v := by decide +kernel
  obtain ⟨hnone, htaken⟩ := hcut _ hpart hshort
  have hself : write v <+: write v := List.prefix_refl _
  refine ⟨hv, hroom, hpush, ?_, ⟨by decide, hpadded, ?_⟩, ⟨hpart, hshort, hnone, htaken⟩,
    ⟨hself, hapart v hself⟩, by decide +kernel⟩
  · rw [hv] at hread ⊢
    exact hread
  · exact (hshortest padded 0 9 (by decide) hpadded).1

end Vint

end WideRow
