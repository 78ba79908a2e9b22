import WideRow.Proofs.Varint

/-!
# Numerals

Digits are written and read as the number that they denote, whether they are counted in one natural
number or in limbs, nine at a time or one by one.
-/

namespace WideRow

namespace Text

/-! ## Characters of numerals -/

/-- A numeral with a minus sign before it, if it is below zero. -/
def signed (negative : Bool) (cs : List Char) : List Char :=
  if negative then '-' :: cs else cs

theorem signed_append (negative : Bool) (cs ds : List Char) :
    signed negative (cs ++ ds) = signed negative cs ++ ds := by
  cases negative <;> rfl

theorem mem_signed {negative : Bool} {cs : List Char} {c : Char} (h : c ∈ signed negative cs) :
    c = '-' ∨ c ∈ cs := by
  cases negative with
  | false => exact .inr h
  | true => exact List.mem_cons.mp h

theorem range_of_isDigit {c : Char} (h : c.isDigit = true) : 48 ≤ c.toNat ∧ c.toNat ≤ 57 := by
  have hrange : (48 ≤ c.val && c.val ≤ 57) = true := h
  simp only [Bool.and_eq_true, decide_eq_true_eq, UInt32.le_iff_toNat_le] at hrange
  exact hrange

theorem isBlank_of_isDigit {c : Char} (h : c.isDigit = true) : isBlank c = false := by
  have := range_of_isDigit h
  simp only [isBlank, Bool.or_eq_false_iff, Bool.and_eq_false_iff, beq_eq_false_iff_ne,
    decide_eq_false_iff_not]
  omega

theorem ne_of_isDigit {c : Char} (h : c.isDigit = true) {d : Char} (hd : d.isDigit = false) : c ≠ d := by
  rintro rfl
  rw [h] at hd
  cases hd

theorem trimChars_of_not_blank {cs : List Char} (h : ∀ c ∈ cs, isBlank c = false) :
    trimChars cs = cs := by
  have hdrop : ∀ ds : List Char, (∀ c ∈ ds, isBlank c = false) → ds.dropWhile isBlank = ds := by
    intro ds hds
    cases ds with
    | nil => rfl
    | cons c ds => rw [List.dropWhile_cons_of_neg (by simp [hds c List.mem_cons_self])]
  unfold trimChars
  rw [hdrop cs h, hdrop cs.reverse (fun c hc => h c (List.mem_reverse.mp hc)), List.reverse_reverse]

/-! ## Digits of a number -/

theorem isDigit_digits {n : Nat} : ∀ c ∈ digits n, c.isDigit = true :=
  fun _ => Nat.isDigit_of_mem_toDigits (by decide) (by decide)

theorem digits_ne_nil (n : Nat) : digits n ≠ [] :=
  Nat.toDigits_ne_nil

theorem ofDigitChars_digits (n : Nat) : Nat.ofDigitChars 10 (digits n) 0 = n :=
  Nat.ofDigitChars_toDigits (by decide) (by decide)

theorem paddedDigits_succ (width n : Nat) :
    paddedDigits (width + 2) n = paddedDigits (width + 1) (n / 10) ++ digits (n % 10) := by
  unfold paddedDigits digits
  by_cases h : n < 10
  · rw [Nat.div_eq_of_lt h, Nat.mod_eq_of_lt h, Nat.toDigits_zero, Nat.toDigits_of_lt_base h]
    simp [List.replicate_succ']
  · rw [Nat.toDigits_of_base_le (by decide) (by omega : 10 ≤ n), Nat.toDigits_of_lt_base (Nat.mod_lt n (by decide))]
    simp

theorem digits_append_padded {n : Nat} (hn : 0 < n) (width r : Nat) (hr : r < 10 ^ (width + 1)) :
    digits n ++ paddedDigits (width + 1) r = digits (n * 10 ^ (width + 1) + r) := by
  induction width generalizing r with
  | zero =>
    have h10 : r < 10 := by simpa using hr
    have hdigits := Nat.toDigits_append_toDigits (by decide : 1 < 10) hn h10
    unfold paddedDigits digits
    rw [Nat.toDigits_of_lt_base h10] at hdigits ⊢
    simpa [Nat.mul_comm] using hdigits
  | succ width ih =>
    have hq : r / 10 < 10 ^ (width + 1) := by
      rw [Nat.pow_succ] at hr
      omega
    have hpos : 0 < n * 10 ^ (width + 1) + r / 10 := by positivity
    rw [paddedDigits_succ, ← List.append_assoc, ih _ hq]
    unfold digits
    rw [Nat.toDigits_append_toDigits (by decide) hpos (Nat.mod_lt r (by decide))]
    congr 1
    rw [Nat.pow_succ 10 (width + 1), ← Nat.mul_assoc]
    omega

/-! ## Reading digits -/

theorem le_ofDigitChars (ds : List Char) (n : Nat) : n ≤ Nat.ofDigitChars 10 ds n := by
  induction ds generalizing n with
  | nil => simp
  | cons c ds ih =>
    rw [Nat.ofDigitChars_cons]
    have := ih (10 * n + (c.toNat - '0'.toNat))
    omega

theorem readDigits_eq {limit : Nat} {ds : List Char} (h : ∀ c ∈ ds, c.isDigit = true) {n : Nat}
    (hn : n ≤ limit) :
    readDigits limit n ds = if Nat.ofDigitChars 10 ds n ≤ limit then .ok (Nat.ofDigitChars 10 ds n)
      else .error .tooLarge := by
  induction ds generalizing n with
  | nil => simp [readDigits, hn]
  | cons c ds ih =>
    have hc := h c List.mem_cons_self
    have hds : ∀ d ∈ ds, d.isDigit = true := fun d hd => h d (List.mem_cons_of_mem c hd)
    unfold readDigits
    rw [Nat.ofDigitChars_cons, Nat.mul_comm 10 n]
    simp only [hc, Bool.not_true, Bool.false_eq_true, if_false]
    split
    · rename_i hlarge
      have := le_ofDigitChars ds (n * 10 + (c.toNat - '0'.toNat))
      rw [if_neg (by omega)]
    · exact ih hds (by omega)

theorem readDigits_digits (limit n : Nat) :
    readDigits limit 0 (digits n) = if n ≤ limit then .ok n else .error .tooLarge := by
  rw [readDigits_eq isDigit_digits (Nat.zero_le limit), ofDigitChars_digits]

theorem readInteger_plus (limit n : Nat) :
    readInteger limit ('+' :: digits n) = if n ≤ limit then .ok (n : Int) else .error .tooLarge := by
  have hread : readInteger limit ('+' :: digits n) =
      (readDigits limit 0 (digits n)).map fun n => (n : Int) := by
    unfold readInteger readNatural
    cases h : digits n with
    | nil => exact absurd h (digits_ne_nil n)
    | cons c cs => rfl
  rw [hread, readDigits_digits]
  split <;> rfl

theorem readInteger_minus (limit n : Nat) :
    readInteger limit ('-' :: digits n) =
      if n ≤ limit + 1 then .ok (-(n : Int)) else .error .tooLarge := by
  have hread : readInteger limit ('-' :: digits n) =
      (readDigits (limit + 1) 0 (digits n)).map fun n => -(n : Int) := by
    unfold readInteger
    cases h : digits n with
    | nil => exact absurd h (digits_ne_nil n)
    | cons c cs => rfl
  rw [hread, readDigits_digits]
  split <;> rfl

end Text

namespace Limbs

/-! ## One more digit -/

theorem toNat_mulAddCarry (factor : UInt32) {carry : UInt64} (hcarry : carry.toNat < 4294967296)
    (l : Limbs) :
    toNat (mulAddCarry factor carry l) = toNat l * factor.toNat + carry.toNat := by
  induction l generalizing carry with
  | nil =>
    unfold mulAddCarry
    split
    · rename_i h
      simp [toNat, h]
    · simp [toNat, Nat.mod_eq_of_lt hcarry]
  | cons x xs ih =>
    have hx := x.toNat_lt
    have hf := factor.toNat_lt
    have hbound : x.toNat * factor.toNat ≤ 4294967295 * 4294967295 :=
      Nat.mul_le_mul (by omega) (by omega)
    have hproduct : (x.toUInt64 * factor.toUInt64 + carry).toNat =
        x.toNat * factor.toNat + carry.toNat := by
      simp only [UInt64.toNat_add, UInt64.toNat_mul, UInt32.toNat_toUInt64]
      omega
    unfold mulAddCarry
    generalize x.toUInt64 * factor.toUInt64 + carry = product at hproduct
    have hupper : (product >>> 32).toNat = product.toNat / 4294967296 := by
      simp [Nat.shiftRight_eq_div_pow]
    have hless : (product >>> 32).toNat < 4294967296 := by omega
    simp only [toNat, ih hless, hupper, UInt64.toNat_toUInt32]
    rw [Nat.add_mul, Nat.mul_add, Nat.mul_assoc]
    omega

theorem toNat_mulAdd (l : Limbs) (factor addend : UInt32) :
    toNat (mulAdd l factor addend) = toNat l * factor.toNat + addend.toNat := by
  have haddend := addend.toNat_lt
  rw [mulAdd, toNat_trim, toNat_mulAddCarry factor (by simpa using haddend)]
  simp

theorem divRem_spec (l : Limbs) {divisor : UInt32} (hd : 0 < divisor.toNat) :
    (divRem l divisor).2.toNat < divisor.toNat ∧
      toNat l = toNat (divRem l divisor).1 * divisor.toNat + (divRem l divisor).2.toNat := by
  obtain ⟨hlt, heq⟩ := divRemUpper_spec divisor hd l
  have hsmall : (divRemUpper divisor l).2.toNat < 4294967296 := Nat.lt_trans hlt divisor.toNat_lt
  simp only [divRem, toNat_trim, UInt64.toNat_toUInt32, Nat.mod_eq_of_lt hsmall]
  exact ⟨hlt, heq⟩

end Limbs

namespace Varint

/-! ## Numerals of varints -/

theorem toNat_foldl_mulAdd (ds : List Char) (l : Limbs) :
    Limbs.toNat (ds.foldl (fun l d => Limbs.mulAdd l 10 (UInt32.ofNat (d.toNat - '0'.toNat))) l) =
      Nat.ofDigitChars 10 ds (Limbs.toNat l) := by
  induction ds generalizing l with
  | nil => simp
  | cons d ds ih =>
    have hdigit : (UInt32.ofNat (d.toNat - '0'.toNat)).toNat = d.toNat - '0'.toNat :=
      UInt32.toNat_ofNat_of_lt (Nat.lt_of_le_of_lt (Nat.sub_le _ _) d.val.toNat_lt)
    rw [List.foldl_cons, ih, Limbs.toNat_mulAdd, hdigit, Nat.ofDigitChars_cons, Nat.mul_comm]
    rfl

theorem toNat_limbsOfDigits (ds : List Char) :
    Limbs.toNat (limbsOfDigits ds) = Nat.ofDigitChars 10 ds 0 :=
  toNat_foldl_mulAdd ds []

theorem chunks_of_ne_nil {l : Limbs} (h : l ≠ []) :
    chunks l = (Limbs.divRem l digitChunk).2 :: chunks (Limbs.divRem l digitChunk).1 := by
  rw [chunks, dif_neg h]

theorem chunkDigits_append_one {tops : List UInt32} (h : tops ≠ []) (x : UInt32) :
    chunkDigits (tops ++ [x]) = chunkDigits tops ++ Text.paddedDigits 9 x.toNat := by
  cases tops with
  | nil => exact absurd rfl h
  | cons top tops => simp [chunkDigits]

theorem magnitudeDigits_eq (l : Limbs) : magnitudeDigits l = Text.digits (Limbs.toNat l) := by
  unfold magnitudeDigits
  induction l using chunks.induct with
  | case1 =>
    rw [chunks]
    rfl
  | case2 l h _ ih =>
    obtain ⟨hlt, heq⟩ := Limbs.divRem_spec l (show 0 < digitChunk.toNat by decide)
    have htrimmed := Limbs.isTrimmed_trim (Limbs.divRemUpper digitChunk l).1
    change (Limbs.divRem l digitChunk).1.IsTrimmed at htrimmed
    rw [chunks_of_ne_nil h, List.reverse_cons, heq]
    generalize (Limbs.divRem l digitChunk).1 = upper at htrimmed ih
    by_cases hupper : upper = []
    · -- The topmost chunk is written without zeros in front.
      rw [hupper, chunks]
      simp [chunkDigits, Limbs.toNat]
    · have hpos := Limbs.toNat_pos htrimmed hupper
      have hchunks : (chunks upper).reverse ≠ [] := by simp [chunks_of_ne_nil hupper]
      rw [chunkDigits_append_one hchunks, ih]
      exact Text.digits_append_padded hpos 8 _ hlt

theorem ofSignAndLimbs_eq {v : Varint} {l : Limbs} (h : Limbs.toNat l = Limbs.toNat v.magnitude) :
    ofSignAndLimbs v.negative l = v := by
  apply toInt_injective
  rw [toInt_ofSignAndLimbs, h]
  rfl

theorem splitSign_signed (negative : Bool) {ds : List Char} (hdigits : ∀ c ∈ ds, c.isDigit = true) :
    splitSign (Text.signed negative ds) = (negative, ds) := by
  cases negative with
  | true => rfl
  | false =>
    unfold Text.signed splitSign
    cases ds with
    | nil => rfl
    | cons c ds =>
      have hc := hdigits c List.mem_cons_self
      split
      · rename_i heq
        cases heq
        cases hc
      · rename_i heq
        cases heq
        cases hc
      · rfl

theorem ofNumeral?_signed (negative : Bool) {ds : List Char} (hne : ds ≠ [])
    (hdigits : ∀ c ∈ ds, c.isDigit = true) :
    ofNumeral? (Text.signed negative ds) = some (ofSignAndLimbs negative (limbsOfDigits ds)) := by
  unfold ofNumeral?
  rw [splitSign_signed negative hdigits]
  have hall : ds.all Char.isDigit = true := List.all_eq_true.mpr hdigits
  simp [hall, hne]

end Varint

end WideRow
