import WideRow.Proofs.IntegerText
import WideRow.Proofs.Result

/-!
# Numerals of bounded integers

A bounded integer is read from the numerals of the integers between its limits and from nothing
else, whatever zeros stand in front.
-/

namespace WideRow.Text

open Result

variable {limit : Nat} {cs ds : List Char}

/-- A sign that may be missing, and whether it is a minus. -/
inductive Sign : Bool → List Char → Prop where
  | none : Sign false []
  | plus : Sign false ['+']
  | minus : Sign true ['-']

def signedNumber (negative : Bool) (ds : List Char) : Int :=
  if negative then -(Nat.ofDigitChars 10 ds 0 : Int) else Nat.ofDigitChars 10 ds 0

theorem numeral_iff {i : Int} :
    Numeral cs i ↔ ∃ negative sign ds, Sign negative sign ∧ cs = sign ++ ds ∧ ds ≠ [] ∧
      (∀ c ∈ ds, c.isDigit = true) ∧ i = signedNumber negative ds := by
  constructor
  · intro h
    cases h with
    | unsigned hne hdigits => exact ⟨_, _, _, .none, rfl, hne, hdigits, rfl⟩
    | plus hne hdigits => exact ⟨_, _, _, .plus, rfl, hne, hdigits, rfl⟩
    | minus hne hdigits => exact ⟨_, _, _, .minus, rfl, hne, hdigits, rfl⟩
  · rintro ⟨_, _, _, ⟨⟩, rfl, hne, hdigits, rfl⟩
    · exact .unsigned hne hdigits
    · exact .plus hne hdigits
    · exact .minus hne hdigits

/-! ## Reading digits -/

theorem isDigit_of_readDigits {n m : Nat} (h : readDigits limit n ds = .ok m) :
    ∀ c ∈ ds, c.isDigit = true := by
  induction ds generalizing n with
  | nil => simp
  | cons c ds ih =>
    unfold readDigits at h
    by_cases hc : c.isDigit = true
    · simp only [hc, Bool.not_true, Bool.false_eq_true, if_false] at h
      split at h
      · simp at h
      · simpa [hc] using ih h
    · simp [hc] at h

theorem readDigits_eq_ok_iff {m : Nat} :
    readDigits limit 0 ds = .ok m ↔
      (∀ c ∈ ds, c.isDigit = true) ∧ Nat.ofDigitChars 10 ds 0 = m ∧ m ≤ limit := by
  constructor
  · intro h
    have hdigits := isDigit_of_readDigits h
    rw [readDigits_eq hdigits (Nat.zero_le limit)] at h
    split at h
    · simp at h
      exact ⟨hdigits, h, by omega⟩
    · simp at h
  · rintro ⟨hdigits, rfl, hle⟩
    rw [readDigits_eq hdigits (Nat.zero_le limit), if_pos hle]

theorem signed_readDigits_eq_ok_iff {f : Int → Int} {i : Int} :
    (Except.map f do return (← readDigits limit 0 ds : Int)) = .ok i ↔
      (∀ c ∈ ds, c.isDigit = true) ∧ Nat.ofDigitChars 10 ds 0 ≤ limit ∧
        f (Nat.ofDigitChars 10 ds 0) = i := by
  constructor
  · intro h
    obtain ⟨m, hm, rfl⟩ := map_eq_ok.mp h
    obtain ⟨n, hn, hpure⟩ := bind_eq_ok.mp hm
    obtain ⟨hdigits, rfl, hle⟩ := readDigits_eq_ok_iff.mp hn
    simp [pure_eq] at hpure
    exact ⟨hdigits, hle, by rw [hpure]⟩
  · rintro ⟨hdigits, hle, rfl⟩
    rw [readDigits_eq_ok_iff.mpr ⟨hdigits, rfl, hle⟩]
    rfl

theorem head_of_isDigit (hdigits : ∀ c ∈ ds, c.isDigit = true) {d : Char} (hd : d.isDigit = false) :
    ds.head? ≠ some d := by
  intro h
  have := hdigits d (List.mem_of_mem_head? h)
  simp_all

/-! ## Reading numbers without a minus sign -/

/-- Digits, maybe after a plus sign, and their number. -/
inductive UnsignedNumeral : List Char → Nat → Prop where
  | bare {ds : List Char} (hne : ds ≠ []) (hdigits : ∀ c ∈ ds, c.isDigit = true) :
      UnsignedNumeral ds (Nat.ofDigitChars 10 ds 0)
  | plus {ds : List Char} (hne : ds ≠ []) (hdigits : ∀ c ∈ ds, c.isDigit = true) :
      UnsignedNumeral ('+' :: ds) (Nat.ofDigitChars 10 ds 0)

theorem readNatural_eq_ok_iff {n : Nat} :
    readNatural limit cs = .ok n ↔ UnsignedNumeral cs n ∧ n ≤ limit := by
  constructor
  · intro h
    unfold readNatural at h
    split at h
    · simp at h
    · simp at h
    · rename_i hne
      obtain ⟨hdigits, rfl, hle⟩ := readDigits_eq_ok_iff.mp h
      exact ⟨.plus (by simpa using hne) hdigits, hle⟩
    · rename_i hne _ _
      obtain ⟨hdigits, rfl, hle⟩ := readDigits_eq_ok_iff.mp h
      exact ⟨.bare (by simpa using hne) hdigits, hle⟩
  · rintro ⟨h, hle⟩
    cases h with
    | bare hne hdigits =>
      have hplus := head_of_isDigit hdigits (d := '+') rfl
      unfold readNatural
      split
      · simp at hne
      · simp at hplus
      · simp at hplus
      · exact readDigits_eq_ok_iff.mpr ⟨hdigits, rfl, hle⟩
    | plus hne hdigits =>
      obtain ⟨d, ds, rfl⟩ := List.exists_cons_of_ne_nil hne
      exact readDigits_eq_ok_iff.mpr ⟨hdigits, rfl, hle⟩

/-! ## Reading integers -/

theorem numeral_of_readInteger {i : Int} (h : readInteger limit cs = .ok i) :
    Numeral cs i ∧ -(limit : Int) - 1 ≤ i ∧ i ≤ limit := by
  unfold readInteger at h
  split at h
  · simp at h
  · rename_i ds hne
    obtain ⟨hdigits, hle, rfl⟩ := signed_readDigits_eq_ok_iff.mp h
    exact ⟨.minus (by simpa using hne) hdigits, by omega⟩
  · obtain ⟨m, hm, rfl⟩ := map_eq_ok.mp h
    obtain ⟨n, hn, hpure⟩ := bind_eq_ok.mp hm
    obtain ⟨hnumeral, hle⟩ := readNatural_eq_ok_iff.mp hn
    simp only [pure_eq, Except.ok.injEq] at hpure
    subst hpure
    cases hnumeral with
    | bare hne hdigits => exact ⟨.unsigned hne hdigits, by omega⟩
    | plus hne hdigits => exact ⟨.plus hne hdigits, by omega⟩

theorem readInteger_of_unsigned {n : Nat} (h : UnsignedNumeral cs n) (hle : n ≤ limit) :
    readInteger limit cs = .ok (n : Int) := by
  have hread := readNatural_eq_ok_iff.mpr ⟨h, hle⟩
  have hminus : cs.head? ≠ some '-' := by
    cases h with
    | bare _ hdigits => exact head_of_isDigit hdigits rfl
    | plus => simp
  unfold readInteger
  split
  · simp at hminus
  · simp at hminus
  · rw [hread]
    rfl

theorem readInteger_of_numeral {i : Int} (h : Numeral cs i) (hlow : -(limit : Int) - 1 ≤ i)
    (hhigh : i ≤ limit) : readInteger limit cs = .ok i := by
  cases h with
  | unsigned hne hdigits => exact readInteger_of_unsigned (.bare hne hdigits) (by omega)
  | plus hne hdigits => exact readInteger_of_unsigned (.plus hne hdigits) (by omega)
  | minus hne hdigits =>
    obtain ⟨d, ds, rfl⟩ := List.exists_cons_of_ne_nil hne
    exact signed_readDigits_eq_ok_iff.mpr ⟨hdigits, by omega, rfl⟩

theorem readInt32?_eq_some_iff {i : Int32} : readInt32? cs = some i ↔ Numeral cs i.toInt := by
  have hlow := i.le_toInt
  have hhigh := i.toInt_lt
  constructor
  · intro h
    unfold readInt32? at h
    split at h
    · rename_i j hj
      obtain ⟨hnumeral, hlow', hhigh'⟩ := numeral_of_readInteger hj
      simp at h
      rwa [← h, Int32.toInt_ofInt_of_le (by omega) (by omega)]
    · simp at h
  · intro h
    unfold readInt32?
    rw [readInteger_of_numeral h (by omega) (by omega)]
    simp

end WideRow.Text
