import Mathlib.Tactic.IntervalCases
import WideRow.Proofs.Bytes
import WideRow.Proofs.Result
import WideRow.Time.Duration

/-!
# Variable-length integers and durations

A written integer is read back from in front of anything, and no reading of it takes fewer bytes. The
same holds of durations, which are three integers.
-/

namespace WideRow

namespace Vint

/-! ## The bytes after the first -/

theorem readTail_append (n : Nat) (b rest : Bytes) :
    readTail n b.length (b ++ rest) = some (n * 256 ^ b.length + Bytes.toNat b, rest) := by
  induction b generalizing n with
  | nil => simp [readTail, Bytes.toNat_nil]
  | cons x b ih =>
    rw [List.length_cons, List.cons_append, readTail, ih, Bytes.toNat_cons, pow_succ]
    congr 2
    ring

theorem of_readTail {n extra m : Nat} {b rest : Bytes} (h : readTail n extra b = some (m, rest)) :
    ∃ c : Bytes, b = c ++ rest ∧ c.length = extra ∧ m = n * 256 ^ extra + Bytes.toNat c := by
  induction extra generalizing n b with
  | zero =>
    simp only [readTail, Option.some.injEq, Prod.mk.injEq] at h
    obtain ⟨rfl, rfl⟩ := h
    exact ⟨[], rfl, rfl, by simp [Bytes.toNat_nil]⟩
  | succ extra ih =>
    cases b with
    | nil => simp [readTail] at h
    | cons x b =>
      rw [readTail] at h
      obtain ⟨c, rfl, hlen, rfl⟩ := ih h
      refine ⟨x :: c, rfl, by simp [hlen], ?_⟩
      rw [Bytes.toNat_cons, hlen, pow_succ]
      ring

/-! ## The first byte -/

theorem leadingOnes_le (x : UInt8) : leadingOnes x ≤ 8 := by
  unfold leadingOnes
  dsimp only
  split_ifs <;> omega

theorem leadingOnes_spec (x : UInt8) :
    x.toNat = marker (leadingOnes x) + x.toNat % 2 ^ (8 - leadingOnes x) ∧
      2 * (x.toNat % 2 ^ (8 - leadingOnes x)) < 2 ^ (8 - leadingOnes x) := by
  have := x.toNat_lt
  unfold leadingOnes marker
  dsimp only
  split_ifs <;> simp only [Nat.reducePow, Nat.reduceSub] <;> omega

theorem pow_le_of_lt {e f : Nat} (h : e < f) (hf : f ≤ 8) : 2 * 2 ^ (8 - f) ≤ 2 ^ (8 - e) := by
  rw [← Nat.pow_succ']
  apply Nat.pow_le_pow_right (by omega)
  omega

theorem marker_add (e : Nat) : marker e + 2 ^ (8 - e) = 256 := by
  have : 2 ^ (8 - e) ≤ 2 ^ 8 := Nat.pow_le_pow_right (by omega) (by omega)
  unfold marker
  omega

theorem marker_unique {e f m n : Nat} (he : e ≤ 8) (hf : f ≤ 8) (hm : 2 * m < 2 ^ (8 - e))
    (hn : 2 * n < 2 ^ (8 - f)) (h : marker e + m = marker f + n) : e = f := by
  have hme := marker_add e
  have hmf := marker_add f
  rcases Nat.lt_trichotomy e f with hlt | rfl | hlt
  · have := pow_le_of_lt hlt hf
    omega
  · rfl
  · have := pow_le_of_lt hlt he
    omega

theorem leadingOnes_marker {extra n : Nat} (he : extra ≤ 8) (hn : 2 * n < 2 ^ (8 - extra)) :
    leadingOnes (UInt8.ofNat (marker extra + n)) = extra ∧
      (UInt8.ofNat (marker extra + n)).toNat % 2 ^ (8 - extra) = n := by
  have hmark := marker_add extra
  have hbyte : (UInt8.ofNat (marker extra + n)).toNat = marker extra + n := by
    rw [UInt8.toNat_ofNat']
    omega
  obtain ⟨hsplit, hlt⟩ := leadingOnes_spec (UInt8.ofNat (marker extra + n))
  have hones := marker_unique (leadingOnes_le _) he hlt hn (by rw [← hsplit, hbyte])
  rw [hones] at hsplit
  exact ⟨hones, by omega⟩

/-! ## How many bytes an integer needs -/

theorem extraBytes_le (v : UInt64) : extraBytes v ≤ 8 := by
  unfold extraBytes
  omega

theorem lt_of_extraBytes {v : UInt64} (h : extraBytes v < 8) :
    v.toNat < 2 ^ (7 * (extraBytes v + 1)) := by
  have he : extraBytes v = Nat.log2 v.toNat / 7 := by
    unfold extraBytes at *
    omega
  have hlog : v.toNat < 2 ^ (Nat.log2 v.toNat + 1) := Nat.lt_log2_self
  apply lt_of_lt_of_le hlog
  apply Nat.pow_le_pow_right (by omega)
  omega

theorem extraBytes_le_of_lt {v : UInt64} {extra : Nat} (h : v.toNat < 2 ^ (7 * (extra + 1))) :
    extraBytes v ≤ extra := by
  unfold extraBytes
  by_cases h0 : v.toNat = 0
  · simp [h0]
  · have := (Nat.log2_lt h0).mpr h
    omega

theorem top_lt (v : UInt64) : 2 * (v.toNat / 256 ^ extraBytes v) < 2 ^ (8 - extraBytes v) := by
  have hle := extraBytes_le v
  have hv := v.toNat_lt
  by_cases h8 : extraBytes v = 8
  · rw [h8]
    norm_num
    omega
  · have hlt := lt_of_extraBytes (v := v) (by omega)
    -- The powers are numbers only when the count of bytes is one.
    generalize extraBytes v = extra at *
    interval_cases extra <;> norm_num at * <;> omega

/-! ## Reading and writing -/

theorem length_write (v : UInt64) : (write v).length = extraBytes v + 1 := by
  simp [write]

/-- A written integer is read back, and what follows is left alone. -/
theorem read_write_append (v : UInt64) (rest : Bytes) : read (write v ++ rest) = some (v, rest) := by
  obtain ⟨hones, hpayload⟩ := leadingOnes_marker (extraBytes_le v) (top_lt v)
  have htail := readTail_append (v.toNat / 256 ^ extraBytes v) (Bytes.ofNat (extraBytes v) v.toNat) rest
  rw [Bytes.length_ofNat, Bytes.toNat_ofNat] at htail
  rw [write, List.cons_append, read, hones, hpayload, htail]
  have hdiv := Nat.div_add_mod' v.toNat (256 ^ extraBytes v)
  simp [hdiv]

theorem length_write_le {b rest : Bytes} {v : UInt64} (h : read b = some (v, rest)) :
    (write v).length + rest.length ≤ b.length := by
  cases b with
  | nil => simp [read] at h
  | cons x b =>
    rw [read] at h
    simp only [Option.map_eq_some_iff] at h
    obtain ⟨⟨n, r⟩, htail, heq⟩ := h
    simp only [Prod.mk.injEq] at heq
    obtain ⟨rfl, rfl⟩ := heq
    obtain ⟨c, rfl, hlen, hn⟩ := of_readTail htail
    have hext : extraBytes (UInt64.ofNat n) ≤ leadingOnes x := by
      by_cases h8 : leadingOnes x = 8
      · rw [h8]
        exact extraBytes_le _
      · -- Seven bits of the number fit into each byte, as the marker takes one of every byte.
        have hle := leadingOnes_le x
        have hlt := (leadingOnes_spec x).2
        have hc := Bytes.toNat_lt c
        rw [hlen] at hc
        apply extraBytes_le_of_lt
        rw [UInt64.toNat_ofNat']
        apply lt_of_le_of_lt (Nat.mod_le _ _)
        rw [hn]
        generalize leadingOnes x = extra at *
        generalize x.toNat % 2 ^ (8 - extra) = top at *
        interval_cases extra <;> norm_num at * <;> omega
    rw [length_write, List.length_cons, List.length_append, hlen]
    omega

/-! ## Zigzag -/

theorem unzigzag_zigzag (i : Int64) : unzigzag (zigzag i) = i := by
  have hlow := i.le_toInt
  have hhigh := i.toInt_lt
  apply Int64.toInt_inj.mp
  unfold unzigzag zigzag
  split
  · rename_i hi
    have hneg : i.toInt < 0 := by simpa [Int64.lt_iff_toInt_lt] using hi
    have hn : (UInt64.ofNat (2 * i.toInt.natAbs - 1)).toNat = 2 * i.toInt.natAbs - 1 := by
      rw [UInt64.toNat_ofNat']
      omega
    rw [hn, if_neg (by omega), Int64.toInt_ofInt_of_le] <;> omega
  · rename_i hi
    have hpos : 0 ≤ i.toInt := by simpa [Int64.lt_iff_toInt_lt] using hi
    have hn : (UInt64.ofNat (2 * i.toInt.natAbs)).toNat = 2 * i.toInt.natAbs := by
      rw [UInt64.toNat_ofNat']
      omega
    rw [hn, if_pos (by omega), Int64.toInt_ofInt_of_le] <;> omega

theorem zigzag_unzigzag (v : UInt64) : zigzag (unzigzag v) = v := by
  have hv := v.toNat_lt
  apply UInt64.toNat_inj.mp
  unfold unzigzag
  split
  · have hn : (Int64.ofInt (v.toNat / 2)).toInt = v.toNat / 2 := by
      rw [Int64.toInt_ofInt_of_le] <;> omega
    rw [zigzag, if_neg (by rw [Int64.lt_iff_toInt_lt, hn]; simp; omega), hn, UInt64.toNat_ofNat']
    omega
  · have hn : (Int64.ofInt (-(v.toNat / 2 : Int) - 1)).toInt = -(v.toNat / 2 : Int) - 1 := by
      rw [Int64.toInt_ofInt_of_le] <;> omega
    rw [zigzag, if_pos (by rw [Int64.lt_iff_toInt_lt, hn]; simp; omega), hn, UInt64.toNat_ofNat']
    omega

end Vint

/-! ## Durations -/

namespace Duration

open Result

theorem readPart_write (part : String) (i : Int64) (rest : Bytes) :
    readPart part (Vint.write (Vint.zigzag i) ++ rest) = .ok (i, rest) := by
  rw [readPart, Vint.read_write_append]
  simp [Vint.unzigzag_zigzag]

theorem length_of_readPart {part : String} {b rest : Bytes} {i : Int64}
    (h : readPart part b = .ok (i, rest)) :
    (Vint.write (Vint.zigzag i)).length + rest.length ≤ b.length := by
  unfold readPart at h
  split at h
  · rename_i v r hread
    cases h
    rw [Vint.zigzag_unzigzag]
    exact Vint.length_write_le hread
  · cases h

theorem toInt_widen (i : Int32) : (Int64.ofInt i.toInt).toInt = i.toInt := by
  have := i.le_toInt
  have := i.toInt_lt
  rw [Int64.toInt_ofInt_of_le] <;> omega

theorem narrowPart_widen (part : String) (i : Int32) :
    narrowPart part (Int64.ofInt i.toInt) = .ok i := by
  have := i.le_toInt
  have := i.toInt_lt
  rw [narrowPart, toInt_widen, if_pos (by omega), Int32.ofInt_toInt]

theorem widen_of_narrowPart {part : String} {i : Int64} {n : Int32} (h : narrowPart part i = .ok n) :
    Int64.ofInt n.toInt = i := by
  unfold narrowPart at h
  split at h
  · cases h
    rw [Int32.toInt_ofInt_of_le (by omega) (by omega), Int64.ofInt_toInt]
  · cases h

theorem ofParts_eq_ok_iff {months days : Int32} {nanoseconds : Int64} {d : Duration} :
    ofParts months days nanoseconds = .ok d ↔
      d.months = months ∧ d.days = days ∧ d.nanoseconds = nanoseconds := by
  constructor
  · intro h
    unfold ofParts at h
    split at h
    · cases h
      exact ⟨rfl, rfl, rfl⟩
    · cases h
  · rintro ⟨rfl, rfl, rfl⟩
    rw [ofParts, dif_pos d.sameSign]

theorem ofBytes_toBytes (d : Duration) : ofBytes d.toBytes = .ok d := by
  have hns := readPart_write "nanoseconds" d.nanoseconds []
  rw [List.append_nil] at hns
  simp only [ofBytes, toBytes, List.append_assoc, readPart_write, hns, ok_bind, narrowPart_widen,
    List.isEmpty_nil, Bool.not_true, Bool.false_eq_true, if_false, ofParts, d.sameSign, dif_pos]

theorem of_ofBytes {b : Bytes} {d : Duration} (h : ofBytes b = .ok d) :
    ∃ r₁ r₂, readPart "months" b = .ok (Int64.ofInt d.months.toInt, r₁) ∧
      readPart "days" r₁ = .ok (Int64.ofInt d.days.toInt, r₂) ∧
      readPart "nanoseconds" r₂ = .ok (d.nanoseconds, []) := by
  unfold ofBytes at h
  obtain ⟨⟨months, r₁⟩, hmonths, h⟩ := bind_eq_ok.mp h
  obtain ⟨⟨days, r₂⟩, hdays, h⟩ := bind_eq_ok.mp h
  obtain ⟨⟨nanoseconds, r₃⟩, hnanos, h⟩ := bind_eq_ok.mp h
  cases r₃ with
  | cons x r₃ => cases h
  | nil =>
    simp only [List.isEmpty_nil, Bool.not_true, Bool.false_eq_true, if_false] at h
    obtain ⟨m, hm, h⟩ := bind_eq_ok.mp h
    obtain ⟨n, hn, h⟩ := bind_eq_ok.mp h
    obtain ⟨rfl, rfl, rfl⟩ := ofParts_eq_ok_iff.mp h
    rw [widen_of_narrowPart hm, widen_of_narrowPart hn]
    exact ⟨r₁, r₂, hmonths, hdays, hnanos⟩

theorem length_toBytes_le {b : Bytes} {d : Duration} (h : ofBytes b = .ok d) :
    d.toBytes.length ≤ b.length := by
  obtain ⟨r₁, r₂, hmonths, hdays, hnanos⟩ := of_ofBytes h
  have h1 := length_of_readPart hmonths
  have h2 := length_of_readPart hdays
  have h3 := length_of_readPart hnanos
  simp only [toBytes, List.length_append]
  omega

end Duration

end WideRow
