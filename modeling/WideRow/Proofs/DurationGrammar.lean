import WideRow.Proofs.Vint

/-!
# Durations by their grammar

An integer of variable length is a first byte and as many more as that has leading one bits, whether
or not fewer would do. A duration is three of them and nothing else. The grammar is said apart from
the readers, which accept what it derives and nothing else.
-/

namespace WideRow

namespace Vint

/-! ## The grammar -/

/-- That a byte begins with so many one bits and no more. -/
def HasOnes (x : UInt8) (ones : Nat) : Prop :=
  ones ≤ 8 ∧ (∀ i < ones, x.toNat.testBit (7 - i) = true) ∧
    (ones < 8 → x.toNat.testBit (7 - ones) = false)

instance (x : UInt8) (ones : Nat) : Decidable (HasOnes x ones) :=
  inferInstanceAs (Decidable (_ ∧ _ ∧ _))

/-- That bytes are one integer, and the number it is: the bits of the first byte below its leading
ones, in front of the other bytes. -/
inductive Denotes : Bytes → Nat → Prop
  | intro {x : UInt8} {tail : Bytes} (hones : HasOnes x tail.length) :
      Denotes (x :: tail)
        (x.toNat % 2 ^ (8 - tail.length) * 256 ^ tail.length + Bytes.toNat tail)

/-- That a signed integer has this place in the order 0, -1, 1, -2, 2, ... -/
def AtPlace (i : Int) (n : Nat) : Prop :=
  (n : Int) = 2 * i ∨ (n : Int) = -2 * i - 1

/-! ## Reading -/

theorem hasOnes_leadingOnes (x : UInt8) : HasOnes x (leadingOnes x) := by
  have hbytes : ∀ n < 256, HasOnes (UInt8.ofNat n) (leadingOnes (UInt8.ofNat n)) := by decide +kernel
  have hx := hbytes x.toNat x.toNat_lt
  rwa [UInt8.ofNat_toNat] at hx

theorem HasOnes.not_lt {x : UInt8} {m n : Nat} (hm : HasOnes x m) (hn : HasOnes x n) : ¬m < n := by
  intro hlt
  have hzero := hm.2.2 (lt_of_lt_of_le hlt hn.1)
  have hone := hn.2.1 m hlt
  simp [hzero] at hone

theorem hasOnes_iff {x : UInt8} {n : Nat} : HasOnes x n ↔ leadingOnes x = n := by
  constructor
  · intro h
    have hx := hasOnes_leadingOnes x
    have := hx.not_lt h
    have := h.not_lt hx
    omega
  · rintro rfl
    exact hasOnes_leadingOnes x

theorem Denotes.lt {b : Bytes} {n : Nat} (h : Denotes b n) : n < 2 ^ 64 := by
  obtain @⟨x, tail, hones⟩ := h
  have hlt := (leadingOnes_spec x).2
  have htail := Bytes.toNat_lt tail
  have hle := hones.1
  rw [hasOnes_iff.mp hones] at hlt
  generalize tail.length = extra at *
  generalize x.toNat % 2 ^ (8 - extra) = top at *
  interval_cases extra <;> norm_num at * <;> omega

theorem read_denotes {b : Bytes} {v : UInt64} (h : Denotes b v.toNat) (rest : Bytes) :
    read (b ++ rest) = some (v, rest) := by
  generalize hv : v.toNat = n at h
  obtain @⟨x, tail, hones⟩ := h
  rw [List.cons_append, read, hasOnes_iff.mp hones, readTail_append, ← hv]
  simp

theorem denotes_of_read {b rest : Bytes} {v : UInt64} (h : read b = some (v, rest)) :
    ∃ front, Denotes front v.toNat ∧ b = front ++ rest := by
  cases b with
  | nil => simp [read] at h
  | cons x b =>
    rw [read] at h
    simp only [Option.map_eq_some_iff] at h
    obtain ⟨⟨n, r⟩, htail, heq⟩ := h
    simp only [Prod.mk.injEq] at heq
    obtain ⟨rfl, rfl⟩ := heq
    obtain ⟨tail, rfl, hlength, rfl⟩ := of_readTail htail
    have hfront : Denotes (x :: tail) _ := .intro (hasOnes_iff.mpr hlength.symm)
    refine ⟨x :: tail, ?_, rfl⟩
    rw [← hlength, UInt64.toNat_ofNat_of_lt' hfront.lt]
    exact hfront

theorem toInt_unzigzag (v : UInt64) :
    (unzigzag v).toInt = if v.toNat % 2 = 0 then (v.toNat / 2 : Int) else -(v.toNat / 2) - 1 := by
  have hv := v.toNat_lt
  unfold unzigzag
  split <;> rw [Int64.toInt_ofInt_of_le] <;> omega

theorem atPlace_iff {i : Int} {v : UInt64} : AtPlace i v.toNat ↔ (unzigzag v).toInt = i := by
  rw [toInt_unzigzag]
  unfold AtPlace
  split <;> omega

end Vint

/-! ## Durations -/

/-- That one of two numbers is negative and the other positive. -/
def Opposite (i j : Int) : Prop :=
  (i < 0 ∧ 0 < j) ∨ (0 < i ∧ j < 0)

theorem sameSign_iff {i j k : Int} :
    SameSign i j k ↔ ¬Opposite i j ∧ ¬Opposite i k ∧ ¬Opposite j k := by
  unfold SameSign Opposite
  omega

namespace Duration

open Result

/-- That bytes are one integer of variable length, which stands for a signed one. -/
def Part (i : Int) (b : Bytes) : Prop :=
  ∃ n, Vint.Denotes b n ∧ Vint.AtPlace i n

/-- That bytes are three such integers. -/
def Spells (b : Bytes) (months days nanoseconds : Int) : Prop :=
  ∃ b₁ b₂ b₃, b = b₁ ++ b₂ ++ b₃ ∧ Part months b₁ ∧ Part days b₂ ∧ Part nanoseconds b₃

theorem Part.bounds {i : Int} {b : Bytes} (h : Part i b) : -2 ^ 63 ≤ i ∧ i < 2 ^ 63 := by
  obtain ⟨n, hn, hplace⟩ := h
  have hlt := hn.lt
  unfold Vint.AtPlace at hplace
  omega

theorem readPart_part (part : String) {b : Bytes} {i : Int64} (h : Part i.toInt b) (rest : Bytes) :
    readPart part (b ++ rest) = .ok (i, rest) := by
  obtain ⟨n, hn, hplace⟩ := h
  have hv : (UInt64.ofNat n).toNat = n := UInt64.toNat_ofNat_of_lt' hn.lt
  rw [← hv] at hn hplace
  rw [readPart, Vint.read_denotes hn]
  simp only [Int64.toInt_inj.mp (Vint.atPlace_iff.mp hplace)]

theorem part_of_readPart {part : String} {b rest : Bytes} {i : Int64}
    (h : readPart part b = .ok (i, rest)) : ∃ front, Part i.toInt front ∧ b = front ++ rest := by
  unfold readPart at h
  split at h
  · rename_i v r hread
    cases h
    obtain ⟨front, hfront, rfl⟩ := Vint.denotes_of_read hread
    exact ⟨front, ⟨v.toNat, hfront, Vint.atPlace_iff.mpr rfl⟩, rfl⟩
  · cases h

/-- Bytes are read as the duration whose parts they spell. -/
theorem ofBytes_eq_ok_iff {b : Bytes} {d : Duration} :
    ofBytes b = .ok d ↔ Spells b d.months.toInt d.days.toInt d.nanoseconds.toInt := by
  constructor
  · intro h
    obtain ⟨r₁, r₂, hmonths, hdays, hnanos⟩ := of_ofBytes h
    obtain ⟨b₁, hb₁, rfl⟩ := part_of_readPart hmonths
    obtain ⟨b₂, hb₂, rfl⟩ := part_of_readPart hdays
    obtain ⟨b₃, hb₃, rfl⟩ := part_of_readPart hnanos
    rw [toInt_widen] at hb₁ hb₂
    exact ⟨b₁, b₂, b₃, by simp, hb₁, hb₂, hb₃⟩
  · rintro ⟨b₁, b₂, b₃, rfl, hb₁, hb₂, hb₃⟩
    rw [← toInt_widen] at hb₁ hb₂
    have hnanos := readPart_part "nanoseconds" hb₃ []
    rw [List.append_nil] at hnanos
    simp only [ofBytes, List.append_assoc, readPart_part _ hb₁,
      readPart_part _ hb₂, hnanos, ok_bind, List.isEmpty_nil, Bool.not_true, Bool.false_eq_true,
      if_false, narrowPart_widen, ofParts_eq_ok_iff, and_self]

theorem Part.unique {i j : Int} {b c r s : Bytes} (hb : Part i b) (hc : Part j c)
    (h : b ++ r = c ++ s) : i = j ∧ r = s := by
  have hi : (Int64.ofInt i).toInt = i := Int64.toInt_ofInt_of_le hb.bounds.1 hb.bounds.2
  have hj : (Int64.ofInt j).toInt = j := Int64.toInt_ofInt_of_le hc.bounds.1 hc.bounds.2
  rw [← hi] at hb
  rw [← hj] at hc
  have hread := readPart_part "" hb r
  rw [h, readPart_part "" hc s] at hread
  simp only [Except.ok.injEq, Prod.mk.injEq] at hread
  obtain ⟨hij, rfl⟩ := hread
  rw [← hi, ← hj, hij]
  exact ⟨rfl, rfl⟩

theorem Spells.unique {b : Bytes} {m d n m' d' n' : Int} (h : Spells b m d n)
    (h' : Spells b m' d' n') : m = m' ∧ d = d' ∧ n = n' := by
  obtain ⟨b₁, b₂, b₃, rfl, hb₁, hb₂, hb₃⟩ := h
  obtain ⟨c₁, c₂, c₃, hbc, hc₁, hc₂, hc₃⟩ := h'
  rw [List.append_assoc, List.append_assoc] at hbc
  obtain ⟨hm, hbc⟩ := hb₁.unique hc₁ hbc
  obtain ⟨hd, rfl⟩ := hb₂.unique hc₂ hbc
  obtain ⟨hn, -⟩ := hb₃.unique (r := []) hc₃ rfl
  exact ⟨hm, hd, hn⟩

theorem ofBytes_accepts_iff {b : Bytes} :
    (∃ d, ofBytes b = .ok d) ↔ ∃ months days nanoseconds, Spells b months days nanoseconds ∧
      (-2 ^ 31 ≤ months ∧ months < 2 ^ 31) ∧ (-2 ^ 31 ≤ days ∧ days < 2 ^ 31) ∧
      ¬Opposite months days ∧ ¬Opposite months nanoseconds ∧ ¬Opposite days nanoseconds := by
  constructor
  · rintro ⟨d, h⟩
    exact ⟨_, _, _, ofBytes_eq_ok_iff.mp h, ⟨d.months.le_toInt, d.months.toInt_lt⟩,
      ⟨d.days.le_toInt, d.days.toInt_lt⟩, sameSign_iff.mp d.sameSign⟩
  · rintro ⟨months, days, nanoseconds, hspells, hmonths, hdays, hsigns⟩
    obtain ⟨-, -, b₃, -, -, -, hnanos⟩ := id hspells
    have hm : (Int32.ofInt months).toInt = months := Int32.toInt_ofInt_of_le hmonths.1 hmonths.2
    have hd : (Int32.ofInt days).toInt = days := Int32.toInt_ofInt_of_le hdays.1 hdays.2
    have hn : (Int64.ofInt nanoseconds).toInt = nanoseconds :=
      Int64.toInt_ofInt_of_le hnanos.bounds.1 hnanos.bounds.2
    have hsame := sameSign_iff.mpr hsigns
    rw [← hm, ← hd, ← hn] at hsame hspells
    exact ⟨⟨_, _, _, hsame⟩, ofBytes_eq_ok_iff.mpr hspells⟩

/-- What can be made of three parts is read back from its bytes. Bytes are read exactly if they are
three integers of variable length, whose parts they determine, the first two of 32 bits and no two of
opposite signs. Writing what was read takes no more bytes and is read as the same. -/
theorem wire_three_integers :
    (∀ months days nanoseconds d, ofParts months days nanoseconds = .ok d →
      d.months = months ∧ d.days = days ∧ d.nanoseconds = nanoseconds ∧
        ofBytes d.toBytes = .ok d) ∧
    ∀ b : Bytes,
      ((∃ d, ofBytes b = .ok d) ↔ ∃ months days nanoseconds, Spells b months days nanoseconds ∧
        (-2 ^ 31 ≤ months ∧ months < 2 ^ 31) ∧ (-2 ^ 31 ≤ days ∧ days < 2 ^ 31) ∧
        ¬Opposite months days ∧ ¬Opposite months nanoseconds ∧ ¬Opposite days nanoseconds) ∧
      (∀ d, ofBytes b = .ok d ↔ Spells b d.months.toInt d.days.toInt d.nanoseconds.toInt) ∧
      (∀ m d n m' d' n', Spells b m d n → Spells b m' d' n' → m = m' ∧ d = d' ∧ n = n') ∧
      ∀ d, ofBytes b = .ok d → d.toBytes.length ≤ b.length ∧ ofBytes d.toBytes = .ok d := by
  refine ⟨?built, fun b => ⟨ofBytes_accepts_iff, fun d => ofBytes_eq_ok_iff, ?unique, ?written⟩⟩
  case built =>
    intro months days nanoseconds d h
    obtain ⟨hmonths, hdays, hnanos⟩ := ofParts_eq_ok_iff.mp h
    exact ⟨hmonths, hdays, hnanos, ofBytes_toBytes d⟩
  case unique =>
    intro m d n m' d' n' h h'
    exact h.unique h'
  case written =>
    intro d h
    exact ⟨length_toBytes_le h, ofBytes_toBytes d⟩

/-- Two bytes where one would do. -/
theorem wire_three_integers_padded :
    let d : Duration := ⟨1, 2, 3, by decide⟩
    (ofParts 1 2 3 = .ok d ∧ ofBytes d.toBytes = .ok d) ∧
      (ofBytes [0x80, 2, 4, 6] = .ok d ∧ d.toBytes = [2, 4, 6] ∧
        d.toBytes.length ≤ [(0x80 : UInt8), 2, 4, 6].length) ∧
      Spells [0x80, 2, 4, 6] 1 2 3 ∧
      ∀ m d n, Spells [0x80, 2, 4, 6] m d n → 1 = m ∧ 2 = d ∧ 3 = n := by
  intro d
  have hbuilt : ofParts 1 2 3 = .ok d := rfl
  have hread : ofBytes [0x80, 2, 4, 6] = .ok d := rfl
  have hwritten : d.toBytes = [2, 4, 6] := by decide +kernel
  obtain ⟨hparts, hbytes⟩ := wire_three_integers
  obtain ⟨-, hspelled, hunique, hshorter⟩ := hbytes [0x80, 2, 4, 6]
  have hspells : Spells [0x80, 2, 4, 6] 1 2 3 := (hspelled d).mp hread
  refine ⟨⟨hbuilt, (hparts 1 2 3 d hbuilt).2.2.2⟩, ⟨hread, hwritten, (hshorter d hread).1⟩,
    hspells, ?_⟩
  intro m d n h
  exact hunique 1 2 3 m d n hspells h

end Duration

end WideRow
