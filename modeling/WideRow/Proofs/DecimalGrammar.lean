import WideRow.Proofs.BoundedNumeral
import WideRow.Proofs.DecimalText
import WideRow.Proofs.Trimming

/-!
# The grammar of decimals

The text of a decimal is a sign, digits around a point and an exponent, one after the other. Reading
takes exactly the texts of this grammar whose numbers have 32 bits, and one kind more: a whole number
may have blanks behind its digits, before its point or its exponent.
-/

namespace WideRow.Decimal

open Text

/-! ## Texts of decimals -/

/-- What the text of a decimal says. -/
structure Parts where
  negative : Bool
  whole : List Char
  fraction : List Char
  exponent : Int

/-- A point with the digits after it. Where there are none, the point may be missing. -/
inductive Point : List Char → List Char → Prop where
  | none : Point [] []
  | point (fraction : List Char) : Point fraction ('.' :: fraction)

inductive Exponent : Int → List Char → Prop where
  | none : Exponent 0 []
  | mark {c : Char} {cs : List Char} {e : Int} (hmark : c = 'e' ∨ c = 'E') (h : Numeral cs e) :
      Exponent e (c :: cs)

namespace Parts

/-- The number that the digits before and after the point write together. -/
def unscaled (p : Parts) : Int :=
  signedNumber p.negative (p.whole ++ p.fraction)

def scale (p : Parts) : Int :=
  p.fraction.length - p.exponent

/-- Whether the exponent, the count of digits after the point and the scale have 32 bits. -/
structure Fits (p : Parts) : Prop where
  exponent : -2147483648 ≤ p.exponent ∧ p.exponent ≤ 2147483647
  fraction : p.fraction.length ≤ 2147483647
  scale : -2147483648 ≤ p.scale ∧ p.scale ≤ 2147483647

/-- The parts written one after the other, with a gap behind the digits before the point. The text of
a decimal has no gap; one of blanks is let through in a whole number. -/
structure Spells (p : Parts) (gap cs : List Char) : Prop where
  isDigit : ∀ c ∈ p.whole ++ p.fraction, c.isDigit = true
  ne_nil : p.whole ++ p.fraction ≠ []
  isBlank : ∀ c ∈ gap, isBlank c = true
  isWhole : gap ≠ [] → p.whole ≠ [] ∧ p.fraction = []
  text : ∃ sign point exponent, Sign p.negative sign ∧ Point p.fraction point ∧
    Exponent p.exponent exponent ∧ cs = sign ++ p.whole ++ gap ++ point ++ exponent

end Parts

/-! ## Splitting -/

theorem isExponentMark_iff {c : Char} : isExponentMark c = true ↔ c = 'e' ∨ c = 'E' := by
  simp [isExponentMark]

theorem splitExponent_eq_some_iff {cs mantissa : List Char} {e : Int32} :
    splitExponent cs = some (mantissa, e) ↔ (∀ c ∈ mantissa, isExponentMark c = false) ∧
      ∃ exponent, Exponent e.toInt exponent ∧ cs = mantissa ++ exponent := by
  constructor
  · intro h
    unfold splitExponent at h
    split at h
    · rename_i front hspan
      obtain ⟨hrun, -, rfl⟩ := span_eq_iff.mp hspan
      simp at h
      obtain ⟨rfl, rfl⟩ := h
      exact ⟨by simpa using hrun, [], .none, rfl⟩
    · rename_i front mark digits hspan
      obtain ⟨hrun, hmark, rfl⟩ := span_eq_iff.mp hspan
      simp only [Option.map_eq_some_iff, Prod.mk.injEq, readInt32?_eq_some_iff] at h
      obtain ⟨e, hnumeral, rfl, rfl⟩ := h
      exact ⟨by simpa using hrun, _, .mark (isExponentMark_iff.mp (by simpa using hmark)) hnumeral, rfl⟩
  · rintro ⟨hrun, exponent, hexponent, rfl⟩
    generalize hvalue : e.toInt = i at hexponent
    have hspan : (mantissa ++ exponent).span (fun c => !isExponentMark c) = (mantissa, exponent) := by
      apply span_run (by simpa using hrun)
      cases hexponent with
      | none => simp
      | mark hmark _ => simpa using isExponentMark_iff.mpr hmark
    unfold splitExponent
    rw [hspan]
    cases hexponent with
    | none =>
      have hzero : e = 0 := Int32.toInt_inj.mp hvalue
      simp [hzero]
    | mark _ hnumeral =>
      rw [← hvalue, ← readInt32?_eq_some_iff] at hnumeral
      simp [hnumeral]

theorem splitPoint_eq_iff {cs whole fraction : List Char} :
    splitPoint cs = (whole, fraction) ↔ (∀ c ∈ whole, c ≠ '.') ∧
      ∃ point, Point fraction point ∧ cs = whole ++ point := by
  constructor
  · intro h
    unfold splitPoint at h
    split at h
    · rename_i front hspan
      obtain ⟨hrun, -, rfl⟩ := span_eq_iff.mp hspan
      simp at h
      obtain ⟨rfl, rfl⟩ := h
      exact ⟨by simpa using hrun, [], .none, rfl⟩
    · rename_i front mark digits hspan
      obtain ⟨hrun, hmark, rfl⟩ := span_eq_iff.mp hspan
      simp at h hmark
      obtain ⟨rfl, rfl⟩ := h
      exact ⟨by simpa using hrun, _, .point digits, by simp [hmark]⟩
  · rintro ⟨hrun, point, hpoint, rfl⟩
    have hspan : (whole ++ point).span (· != '.') = (whole, point) := by
      apply span_run (by simpa using hrun)
      cases hpoint <;> simp
    unfold splitPoint
    rw [hspan]
    cases hpoint <;> rfl

/-! ## Digits before the point -/

/-- A sign with nothing behind it. -/
def isBare (whole : List Char) : Bool :=
  whole == [] || whole == ['-'] || whole == ['+']

theorem isBare_iff {whole : List Char} :
    isBare whole = true ↔ ∃ negative, Sign negative whole := by
  constructor
  · intro h
    simp [isBare] at h
    obtain (rfl | rfl) | rfl := h
    · exact ⟨_, .none⟩
    · exact ⟨_, .minus⟩
    · exact ⟨_, .plus⟩
  · rintro ⟨_, ⟨⟩⟩ <;> rfl

/-- What is read as one integer: the digits before and after the point, with a zero for none before
it. -/
def joined (whole fraction : List Char) : List Char :=
  (if isBare whole then whole ++ ['0'] else whole) ++ fraction

theorem isBlank_sign {negative : Bool} {sign : List Char} (h : Sign negative sign) :
    ∀ c ∈ sign, isBlank c = false := by
  cases h <;> simp <;> decide

theorem isDigit_sign {negative : Bool} {sign : List Char} (h : Sign negative sign) :
    ∀ c ∈ sign, c.isDigit = false := by
  cases h <;> simp

theorem not_bare {digits : List Char} (front back : List Char)
    (hdigits : ∀ c ∈ digits, c.isDigit = true) (hne : digits ≠ []) :
    isBare (front ++ digits ++ back) = false := by
  obtain ⟨d, hd⟩ := List.exists_mem_of_ne_nil digits hne
  by_contra hbare
  obtain ⟨_, hsigns⟩ := isBare_iff.mp (by simpa using hbare)
  have := isDigit_sign hsigns d (by simp [hd])
  simp [hdigits d hd] at this

theorem isBlank_signed {negative : Bool} {sign ds : List Char} (hsign : Sign negative sign)
    (hdigits : ∀ c ∈ ds, c.isDigit = true) : ∀ c ∈ sign ++ ds, isBlank c = false := by
  intro c hc
  simp at hc
  obtain hc | hc := hc
  · exact isBlank_sign hsign c hc
  · exact isBlank_of_isDigit (hdigits c hc)

theorem digits_of_append {negative : Bool} {sign ds whole fraction : List Char}
    (hsign : Sign negative sign) (hbare : ¬ isBare whole = true) (h : whole ++ fraction = sign ++ ds) :
    ∃ digits, whole = sign ++ digits ∧ ds = digits ++ fraction := by
  obtain ⟨rest, hsplit, -⟩ | hdigits := List.append_eq_append_iff.mp h
  · -- A sign has no room for more, so the front would be nothing or the sign.
    have hshort : sign = [] ∨ ∃ c, sign = [c] := by cases hsign <;> simp
    have hfront : whole = [] ∨ whole = sign := by
      obtain rfl | ⟨c, rfl⟩ := hshort
      · exact .inl (List.append_eq_nil_iff.mp hsplit.symm).1
      · obtain ⟨hnone, -⟩ | ⟨hall, -⟩ := List.append_eq_singleton_iff.mp hsplit.symm
        · exact .inl hnone
        · exact .inr hall
    obtain rfl | rfl := hfront
    · exact absurd (isBare_iff.mpr ⟨false, .none⟩) hbare
    · exact absurd (isBare_iff.mpr ⟨negative, hsign⟩) hbare
  · exact hdigits

theorem exists_gap {cs : List Char} (hhead : ∀ c ∈ cs.head?, isBlank c = false) :
    ∃ gap, cs = trimChars cs ++ gap ∧ ∀ c ∈ gap, isBlank c = true := by
  have hfront : cs.dropWhile isBlank = cs := by
    cases cs with
    | nil => rfl
    | cons c cs => simp [hhead c rfl]
  refine ⟨cs.rtakeWhile isBlank, ?_, fun c hc => List.mem_rtakeWhile_imp hc⟩
  rw [trimChars_eq, hfront, List.rdropWhile, List.rtakeWhile, ← List.reverse_append,
    List.takeWhile_append_dropWhile, List.reverse_reverse]

theorem trimChars_gap {cs gap : List Char} (hcs : ∀ c ∈ cs, isBlank c = false)
    (hgap : ∀ c ∈ gap, isBlank c = true) : trimChars (cs ++ gap) = cs := by
  have hback : (gap.reverse ++ cs.reverse).dropWhile isBlank = cs.reverse := by
    apply dropWhile_run (by simpa using hgap)
    intro c hc
    exact hcs c (List.mem_reverse.mp (List.mem_of_mem_head? hc))
  unfold trimChars
  cases cs with
  | nil =>
    have hnone : gap.dropWhile isBlank = [] := List.dropWhile_eq_nil_iff.mpr hgap
    simp [hnone]
  | cons c cs =>
    rw [List.cons_append, List.dropWhile_cons_of_neg (by simp [hcs c]), ← List.cons_append,
      List.reverse_append, hback, List.reverse_reverse]

theorem ofDigitChars_zero_cons (ds : List Char) :
    Nat.ofDigitChars 10 ('0' :: ds) 0 = Nat.ofDigitChars 10 ds 0 := by
  rw [Nat.ofDigitChars_cons]
  rfl

theorem numeral_unique {cs : List Char} {i j : Int} (hi : Numeral cs i) (hj : Numeral cs j) :
    i = j := by
  obtain ⟨v, hv, rfl⟩ := Varint.ofNumeral?_of_numeral hi
  obtain ⟨w, hw, rfl⟩ := Varint.ofNumeral?_of_numeral hj
  simp_all

section

variable {whole fraction : List Char} (hfraction : ∀ c ∈ fraction, c.isDigit = true)
include hfraction

theorem joined_bare {negative : Bool} (hsign : Sign negative whole) :
    Numeral (trimChars (joined whole fraction)) (signedNumber negative fraction) := by
  have hdigits : ∀ c ∈ '0' :: fraction, c.isDigit = true := by simpa using hfraction
  have hjoined : joined whole fraction = whole ++ '0' :: fraction := by
    simp [joined, isBare_iff.mpr ⟨negative, hsign⟩]
  rw [hjoined, trimChars_of_not_blank (isBlank_signed hsign hdigits), numeral_iff]
  exact ⟨negative, whole, _, hsign, rfl, by simp, hdigits, by simp only [signedNumber, ofDigitChars_zero_cons]⟩

theorem joined_digits {negative : Bool} {sign digits gap : List Char} (hsign : Sign negative sign)
    (hdigits : ∀ c ∈ digits, c.isDigit = true) (hne : digits ≠ [])
    (hgap : ∀ c ∈ gap, isBlank c = true) (hwhole : gap ≠ [] → fraction = []) :
    Numeral (trimChars (joined (sign ++ digits ++ gap) fraction))
      (signedNumber negative (digits ++ fraction)) := by
  have hbare := not_bare sign gap hdigits hne
  have hall : ∀ c ∈ digits ++ fraction, c.isDigit = true := by
    simp
    rintro c (hc | hc)
    · exact hdigits c hc
    · exact hfraction c hc
  have htrim : trimChars (sign ++ digits ++ gap ++ fraction) = sign ++ (digits ++ fraction) := by
    by_cases hnil : gap = []
    · simp [hnil, trimChars_of_not_blank (isBlank_signed hsign hall)]
    · rw [hwhole hnil, List.append_nil, List.append_nil]
      exact trimChars_gap (isBlank_signed hsign hdigits) hgap
  rw [joined, hbare, if_neg (by simp), htrim, numeral_iff]
  exact ⟨negative, sign, _, hsign, rfl, by simp [hne], hall, rfl⟩

theorem gap_eq_nil {front gap : List Char} (hne : fraction ≠ [])
    (hgap : ∀ c ∈ gap, isBlank c = true) (h : whole ++ fraction = front ++ gap) : gap = [] := by
  by_contra hgapped
  have hdigit := hfraction _ (List.getLast_mem hne)
  have hblank := hgap _ (List.getLast_mem hgapped)
  have hlast := congrArg List.getLast? h
  rw [List.getLast?_append_of_ne_nil _ hne, List.getLast?_append_of_ne_nil _ hgapped,
    List.getLast?_eq_some_getLast hne, List.getLast?_eq_some_getLast hgapped,
    Option.some.injEq] at hlast
  rw [← hlast, isBlank_of_isDigit hdigit] at hblank
  simp at hblank

theorem parts_of_joined {i : Int} (hhead : ∀ c ∈ whole.head?, isBlank c = false)
    (hsome : isBare whole = true → fraction ≠ [])
    (h : Numeral (trimChars (joined whole fraction)) i) :
    ∃ negative sign digits gap, Sign negative sign ∧ whole = sign ++ digits ++ gap ∧
      (∀ c ∈ digits, c.isDigit = true) ∧ digits ++ fraction ≠ [] ∧
      (∀ c ∈ gap, isBlank c = true) ∧ (gap ≠ [] → digits ≠ [] ∧ fraction = []) ∧
      i = signedNumber negative (digits ++ fraction) := by
  by_cases hbare : isBare whole = true
  · obtain ⟨negative, hsign⟩ := isBare_iff.mp hbare
    have hvalue := numeral_unique h (joined_bare hfraction hsign)
    exact ⟨negative, whole, [], [], hsign, by simp, by simp, hsome hbare, by simp, by simp, hvalue⟩
  · have hjoined : joined whole fraction = whole ++ fraction := by simp [joined, hbare]
    have hne : whole ≠ [] := by
      rintro rfl
      exact hbare rfl
    have hfront : ∀ c ∈ (whole ++ fraction).head?, isBlank c = false := by
      rw [List.head?_append_of_ne_nil _ hne]
      exact hhead
    obtain ⟨gap, hcut, hgap⟩ := exists_gap hfront
    rw [hjoined] at h
    obtain ⟨negative, sign, ds, hsign, htrim, hds, hdigits, rfl⟩ := numeral_iff.mp h
    rw [htrim] at hcut
    by_cases hnil : fraction = []
    · rw [hnil, List.append_nil] at hcut
      exact ⟨negative, sign, ds, gap, hsign, hcut, hdigits, by simp [hds], hgap, by simp [hnil, hds],
        by simp [hnil]⟩
    · have hgapless := gap_eq_nil hfraction hnil hgap hcut
      rw [hgapless, List.append_nil] at hcut
      obtain ⟨digits, rfl, rfl⟩ := digits_of_append hsign hbare hcut
      simp only [List.mem_append] at hdigits
      exact ⟨negative, sign, digits, [], hsign, by simp, fun c hc => hdigits c (.inl hc), hds,
        by simp, by simp, rfl⟩

end

/-! ## Reading -/

theorem integer_eq_some_iff {cs : List Char} {v : Varint} :
    Varint.ofNumeral? cs = some v ↔ Numeral cs v.toInt := by
  constructor
  · exact Varint.numeral_of_ofNumeral?
  · intro h
    obtain ⟨w, hw, hvalue⟩ := Varint.ofNumeral?_of_numeral h
    rw [hw, Varint.toInt_injective hvalue]

theorem subtract32?_eq_some_iff {a b : Int} {s : Int32} :
    subtract32? a b = some s ↔ s.toInt = a - b := by
  constructor
  · intro h
    unfold subtract32? at h
    split at h
    · rw [← Option.some.inj h, Int32.toInt_ofInt_of_le (by omega) (by omega)]
    · simp at h
  · intro h
    exact subtract32?_eq h.symm

section

variable {cs mantissa whole fraction : List Char} {e : Int32} {d : Decimal}
  (hsplit : splitExponent cs = some (mantissa, e)) (hpoint : splitPoint mantissa = (whole, fraction))
include hsplit hpoint

theorem ofNumeral?_eq :
    ofNumeral? cs =
      if !fraction.all Char.isDigit || (isBare whole && fraction.isEmpty) then none
      else if 2147483647 < fraction.length then none
      else do
        let unscaled ← Varint.ofNumeral? (trimChars (joined whole fraction))
        let scale ← subtract32? fraction.length e.toInt
        return ⟨unscaled, scale⟩ := by
  unfold ofNumeral?
  simp only [hsplit, Option.bind_eq_bind, Option.bind_some, hpoint]
  rfl

theorem ofNumeral?_eq_some_iff :
    ofNumeral? cs = some d ↔ (∀ c ∈ fraction, c.isDigit = true) ∧
      (isBare whole = true → fraction ≠ []) ∧ fraction.length ≤ 2147483647 ∧
      Numeral (trimChars (joined whole fraction)) d.unscaled.toInt ∧
      d.scale.toInt = fraction.length - e.toInt := by
  rw [ofNumeral?_eq hsplit hpoint, ← integer_eq_some_iff, ← subtract32?_eq_some_iff]
  constructor
  · intro h
    split at h
    · simp at h
    split at h
    · simp at h
    rename_i hgood hshort
    simp [Option.bind_eq_some_iff] at h
    obtain ⟨unscaled, hunscaled, scale, hscale, rfl⟩ := h
    simp at hgood
    exact ⟨hgood.1, hgood.2, by omega, hunscaled, hscale⟩
  · rintro ⟨hdigits, hsome, hshort, hunscaled, hscale⟩
    rw [if_neg (by simpa using ⟨hdigits, hsome⟩), if_neg (by omega), hunscaled, hscale]
    rfl

end

/-! ## What is read -/

theorem not_split {c : Char} (h : c.isDigit = true ∨ isBlank c = true) :
    isExponentMark c = false ∧ c ≠ '.' := by
  constructor
  · by_contra hmark
    rw [Bool.not_eq_false, isExponentMark_iff] at hmark
    obtain rfl | rfl := hmark <;> revert h <;> decide
  · rintro rfl
    revert h
    decide

theorem not_mark_of_point {fraction point : List Char} (h : Point fraction point)
    (hdigits : ∀ c ∈ fraction, c.isDigit = true) : ∀ c ∈ point, isExponentMark c = false := by
  cases h with
  | none => simp
  | point =>
    simp only [List.mem_cons]
    rintro c (rfl | hc)
    · decide
    · exact (not_split (.inl (hdigits c hc))).1

namespace Parts

variable {p : Parts} {gap cs : List Char}

theorem Spells.isBlank_text (h : p.Spells [] cs) : ∀ c ∈ cs, Text.isBlank c = false := by
  obtain ⟨sign, point, exponent, hsign, hpoint, hexponent, rfl⟩ := h.text
  have hdigits := h.isDigit
  generalize p.whole = whole at hdigits
  generalize p.fraction = fraction at hdigits hpoint
  have hfront : ∀ c ∈ point, Text.isBlank c = false := by
    cases hpoint with
    | none => simp
    | point =>
      simp only [List.mem_cons]
      rintro c (rfl | hc)
      · decide
      · exact isBlank_of_isDigit (hdigits c (by simp [hc]))
  have hback : ∀ c ∈ exponent, Text.isBlank c = false := by
    generalize p.exponent = e at hexponent
    cases hexponent with
    | none => simp
    | mark hmark hnumeral =>
      obtain ⟨_, _, ds, hmarkSign, rfl, -, hds, -⟩ := numeral_iff.mp hnumeral
      simp only [List.mem_cons]
      rintro c (rfl | hc)
      · obtain rfl | rfl := hmark <;> decide
      · exact isBlank_signed hmarkSign hds c hc
  intro c hc
  simp only [List.append_nil, List.mem_append] at hc hdigits
  obtain ((hc | hc) | hc) | hc := hc
  · exact isBlank_sign hsign c hc
  · exact isBlank_of_isDigit (hdigits c (.inl hc))
  · exact hfront c hc
  · exact hback c hc

theorem Spells.gap_eq_nil (h : p.Spells gap cs) (hblank : ∀ c ∈ cs, Text.isBlank c = false) :
    gap = [] := by
  obtain ⟨_, _, _, -, -, -, rfl⟩ := h.text
  apply List.eq_nil_iff_forall_not_mem.mpr
  intro c hc
  have := hblank c (by simp [hc])
  simp [h.isBlank c hc] at this

theorem Spells.front (h : p.Spells gap cs) {sign : List Char} (hsign : Sign p.negative sign) :
    ∀ c ∈ sign ++ p.whole ++ gap, isExponentMark c = false ∧ c ≠ '.' := by
  have hdigits := h.isDigit
  have hblank := h.isBlank
  intro c hc
  simp only [List.mem_append] at hc hdigits
  obtain (hc | hc) | hc := hc
  · generalize p.negative = negative at hsign
    cases hsign <;> simp at hc <;> rw [hc] <;> decide
  · exact not_split (.inl (hdigits c (.inl hc)))
  · exact not_split (.inr (hblank c hc))

theorem Spells.fraction_ne_nil (h : p.Spells gap cs) {sign : List Char}
    (hbare : isBare (sign ++ p.whole ++ gap) = true) : p.fraction ≠ [] := by
  intro hnil
  have hdigits := h.isDigit
  have hne := h.ne_nil
  rw [hnil, List.append_nil] at hdigits hne
  rw [not_bare sign gap hdigits hne] at hbare
  simp at hbare

theorem Spells.numeral (h : p.Spells gap cs) {sign : List Char} (hsign : Sign p.negative sign) :
    Numeral (trimChars (joined (sign ++ p.whole ++ gap) p.fraction)) p.unscaled := by
  have hdigits := h.isDigit
  simp only [List.mem_append] at hdigits
  have hfraction : ∀ c ∈ p.fraction, c.isDigit = true := fun c hc => hdigits c (.inr hc)
  unfold unscaled
  by_cases hwhole : p.whole = []
  · have hgap : gap = [] := by
      by_contra hgap
      exact (h.isWhole hgap).1 hwhole
    simpa [hwhole, hgap] using joined_bare hfraction hsign
  · exact joined_digits hfraction hsign (fun c hc => hdigits c (.inl hc)) hwhole h.isBlank
      fun hgap => (h.isWhole hgap).2

end Parts

theorem spells_of_ofNumeral? {cs : List Char} {d : Decimal}
    (hhead : ∀ c ∈ cs.head?, isBlank c = false) (h : ofNumeral? cs = some d) :
    ∃ (p : Parts) (gap : List Char), p.Spells gap cs ∧ p.Fits ∧ d.unscaled.toInt = p.unscaled ∧
      d.scale.toInt = p.scale := by
  cases hsplit : splitExponent cs with
  | none => simp [ofNumeral?_of_no_split hsplit] at h
  | some parts =>
    obtain ⟨mantissa, e⟩ := parts
    rcases hpoint : splitPoint mantissa with ⟨whole, fraction⟩
    obtain ⟨hfraction, hsome, hshort, hunscaled, hscale⟩ :=
      (ofNumeral?_eq_some_iff hsplit hpoint).mp h
    obtain ⟨-, exponent, hexponent, rfl⟩ := splitExponent_eq_some_iff.mp hsplit
    obtain ⟨-, point, hpointText, rfl⟩ := splitPoint_eq_iff.mp hpoint
    have hfront : ∀ c ∈ whole.head?, isBlank c = false := by
      intro c hc
      apply hhead
      simp_all [List.head?_append]
    obtain ⟨negative, sign, digits, gap, hsign, rfl, hdigits, hne, hgap, hwhole, hvalue⟩ :=
      parts_of_joined hfraction hfront hsome hunscaled
    have helow := e.le_toInt
    have hehigh := e.toInt_lt
    have hslow := d.scale.le_toInt
    have hshigh := d.scale.toInt_lt
    refine ⟨⟨negative, digits, fraction, e.toInt⟩, gap, ⟨?_, hne, hgap, hwhole, ?_⟩, ⟨?_, hshort, ?_⟩,
      hvalue, hscale⟩
    · simp only [List.mem_append]
      rintro c (hc | hc)
      · exact hdigits c hc
      · exact hfraction c hc
    · exact ⟨sign, point, exponent, hsign, hpointText, hexponent, by simp⟩
    · simp only
      omega
    · simp only [Parts.scale]
      omega

theorem ofNumeral?_of_spells {p : Parts} {gap cs : List Char} (h : p.Spells gap cs) (hfits : p.Fits) :
    ∃ d, ofNumeral? cs = some d ∧ d.unscaled.toInt = p.unscaled ∧ d.scale.toInt = p.scale := by
  obtain ⟨sign, point, exponent, hsign, hpoint, hexponent, rfl⟩ := h.text
  have hexp : (Int32.ofInt p.exponent).toInt = p.exponent :=
    Int32.toInt_ofInt_of_le (by have := hfits.exponent; omega) (by have := hfits.exponent; omega)
  have hscl : (Int32.ofInt p.scale).toInt = p.scale :=
    Int32.toInt_ofInt_of_le (by have := hfits.scale; omega) (by have := hfits.scale; omega)
  have hplain := h.front hsign
  have hdigits := h.isDigit
  simp only [List.mem_append] at hdigits
  have hpointPlain := not_mark_of_point hpoint fun c hc => hdigits c (.inr hc)
  have hsplit : splitExponent (sign ++ p.whole ++ gap ++ point ++ exponent) =
      some (sign ++ p.whole ++ gap ++ point, Int32.ofInt p.exponent) := by
    rw [splitExponent_eq_some_iff, hexp]
    refine ⟨?_, exponent, hexponent, rfl⟩
    intro c hc
    obtain hc | hc := List.mem_append.mp hc
    · exact (hplain c hc).1
    · exact hpointPlain c hc
  have hpoint : splitPoint (sign ++ p.whole ++ gap ++ point) =
      (sign ++ p.whole ++ gap, p.fraction) :=
    splitPoint_eq_iff.mpr ⟨fun c hc => (hplain c hc).2, point, hpoint, rfl⟩
  obtain ⟨v, -, hv⟩ := Varint.ofNumeral?_of_numeral (h.numeral hsign)
  refine ⟨⟨v, Int32.ofInt p.scale⟩, ?_, hv, hscl⟩
  rw [ofNumeral?_eq_some_iff hsplit hpoint, hv, hscl, hexp]
  exact ⟨fun c hc => hdigits c (.inr hc), h.fraction_ne_nil, hfits.fraction, h.numeral hsign, rfl⟩

/-! ## Reading decimals -/

theorem head_trim (s : String) : ∀ c ∈ (trim s).toList.head?, isBlank c = false := by
  have hhead := head_dropWhile (p := isBlank) (trimChars s.toList)
  rw [dropWhile_trimChars] at hhead
  rwa [trim, String.toList_ofList]

theorem parse_eq {s : String} :
    parse s = (ofNumeral? (trim s).toList).elim (.error (.decode "decimal" (.notDecimal s))) .ok := by
  unfold parse trim
  rw [String.toList_ofList]
  cases ofNumeral? (trimChars s.toList) <;> rfl

theorem spells_of_parse {s : String} {d : Decimal} (h : parse s = .ok d) :
    ∃ (p : Parts) (gap : List Char), p.Spells gap (trim s).toList ∧ p.Fits ∧
      d.unscaled.toInt = p.unscaled ∧ d.scale.toInt = p.scale := by
  rw [parse_eq] at h
  cases hread : ofNumeral? (trim s).toList with
  | none => simp [hread] at h
  | some e =>
    simp [hread] at h
    rw [← h]
    exact spells_of_ofNumeral? (head_trim s) hread

theorem parse_of_spells {s : String} {p : Parts} {gap : List Char}
    (h : p.Spells gap (trim s).toList) (hfits : p.Fits) :
    ∃ d, parse s = .ok d ∧ d.unscaled.toInt = p.unscaled ∧ d.scale.toInt = p.scale := by
  obtain ⟨d, hd, hvalues⟩ := ofNumeral?_of_spells h hfits
  exact ⟨d, by rw [parse_eq, hd]; rfl, hvalues⟩

theorem eq_of_parts {d e : Decimal} (hunscaled : d.unscaled.toInt = e.unscaled.toInt)
    (hscale : d.scale.toInt = e.scale.toInt) : d = e := by
  have hu := Varint.toInt_injective hunscaled
  have hs := Int32.toInt_inj.mp hscale
  cases d
  cases e
  simp_all

theorem parse_of_not_spells {s : String} (h : ¬ ∃ d, parse s = .ok d) :
    parse s = .error (.decode "decimal" (.notDecimal s)) := by
  rw [parse_eq] at h ⊢
  cases hread : ofNumeral? (trim s).toList with
  | none => rfl
  | some d => simp [hread] at h

/-- A text without blanks inside is read exactly if it is one of the grammar whose numbers have 32
bits. The only other texts that are read have a gap behind the digits of a whole number. What is read
is the signed number that the digits write together, at the scale that the digits after the point and
the exponent give. -/
theorem parse_by_grammar (s : String) :
    ((∀ c ∈ (trim s).toList, isBlank c = false) →
      ((∃ d, parse s = .ok d) ↔ ∃ p : Parts, p.Spells [] (trim s).toList ∧ p.Fits)) ∧
    ((∃ d, parse s = .ok d) ↔
      ∃ (p : Parts) (gap : List Char), p.Spells gap (trim s).toList ∧ p.Fits) ∧
    (∀ (p : Parts) (gap : List Char), p.Spells gap (trim s).toList → p.Fits →
      ∀ d, parse s = .ok d ↔ d.unscaled.toInt = p.unscaled ∧ d.scale.toInt = p.scale) ∧
    ((¬ ∃ d, parse s = .ok d) → parse s = .error (.decode "decimal" (.notDecimal s))) := by
  refine ⟨?plain, ?read, ?value, parse_of_not_spells⟩
  case plain =>
    intro hblank
    constructor
    · rintro ⟨d, hd⟩
      obtain ⟨p, gap, hspells, hfits, -⟩ := spells_of_parse hd
      have hgap : gap = [] := hspells.gap_eq_nil hblank
      exact ⟨p, hgap ▸ hspells, hfits⟩
    · rintro ⟨p, hspells, hfits⟩
      obtain ⟨d, hd, -⟩ := parse_of_spells hspells hfits
      exact ⟨d, hd⟩
  case read =>
    constructor
    · rintro ⟨d, hd⟩
      obtain ⟨p, gap, hspells, hfits, -⟩ := spells_of_parse hd
      exact ⟨p, gap, hspells, hfits⟩
    · rintro ⟨p, gap, hspells, hfits⟩
      obtain ⟨d, hd, -⟩ := parse_of_spells hspells hfits
      exact ⟨d, hd⟩
  case value =>
    intro p gap hspells hfits d
    obtain ⟨e, he, hunscaled, hscale⟩ := parse_of_spells hspells hfits
    constructor
    · intro hd
      rw [hd] at he
      cases he
      exact ⟨hunscaled, hscale⟩
    · rintro ⟨hunscaled', hscale'⟩
      rw [he, eq_of_parts (hunscaled.trans hunscaled'.symm) (hscale.trans hscale'.symm)]

/-- A sign, digits on both sides of the point and a signed exponent; and two exponents, which no
grammar has room for. -/
theorem parse_by_grammar_two_exponents :
    ((∀ c ∈ (trim " -1.250E+1 ").toList, isBlank c = false) ∧
      (∃ p : Parts, p.Spells [] (trim " -1.250E+1 ").toList ∧ p.Fits) ∧
      parse " -1.250E+1 " = .ok ⟨Varint.ofInt64 (-1250), 2⟩) ∧
    ¬ (∃ d, parse "1e5e5" = .ok d) ∧
      parse "1e5e5" = .error (.decode "decimal" (.notDecimal "1e5e5")) := by
  constructor
  · obtain ⟨hplain, -, hvalue, -⟩ := parse_by_grammar " -1.250E+1 "
    have hall : (trim " -1.250E+1 ").toList.all (fun c => !isBlank c) = true := by decide
    have hblank : ∀ c ∈ (trim " -1.250E+1 ").toList, isBlank c = false := by simpa using hall
    have hread : parse " -1.250E+1 " = .ok ⟨Varint.ofInt64 (-1250), 2⟩ := by
      let p : Parts := ⟨true, ['1'], ['2', '5', '0'], 1⟩
      have hexponent : Numeral ['+', '1'] 1 := .plus (by simp) (by simp)
      have hspells : p.Spells [] (trim " -1.250E+1 ").toList :=
        ⟨by simp [p], by simp [p], by simp, by simp, ['-'], ['.', '2', '5', '0'], ['E', '+', '1'],
          .minus, .point _, .mark (.inr rfl) hexponent, by decide⟩
      have hfits : p.Fits := ⟨by decide, by decide, by decide⟩
      exact (hvalue p [] hspells hfits _).mpr ⟨by decide, by decide⟩
    exact ⟨hblank, (hplain hblank).mp ⟨_, hread⟩, hread⟩
  · have hrefused : ¬ ∃ d, parse "1e5e5" = .ok d := by
      have herror : (parse "1e5e5").isOk = false := by decide
      rintro ⟨d, hd⟩
      simp [hd, Except.isOk, Except.toBool] at herror
    exact ⟨hrefused, (parse_by_grammar "1e5e5").2.2.2 hrefused⟩

/-- A blank before the exponent mark, which no text of the grammar has, is read over. -/
theorem parse_blank_before_exponent :
    parse "1 e5" = .ok ⟨Varint.ofInt64 1, -5⟩ ∧
      ¬ ∃ p : Parts, p.Spells [] (trim "1 e5").toList := by
  constructor
  · decide
  · rintro ⟨p, h⟩
    have := h.isBlank_text ' ' (by decide)
    simp [isBlank] at this

end WideRow.Decimal
