import WideRow.Proofs.Numeral
import WideRow.Proofs.Span
import WideRow.Time.Duration

/-!
# Text of durations

Amounts with a unit behind each are read in one way only: digits go on to the unit, and the unit
goes on to the next digit, so that `1m5s` is no month and `1mo5s` no minute. What the amounts in the
text of a duration come to is the duration, hence the text tells durations apart.
-/

namespace WideRow

/-! ## Units -/

inductive TimeUnit where
  | year
  | month
  | day
  | hour
  | minute
  | second
  | milli
  | micro
  | nano
  deriving DecidableEq

namespace TimeUnit

/-- Every unit, largest first. -/
def all : List TimeUnit :=
  [year, month, day, hour, minute, second, milli, micro, nano]

def symbol : TimeUnit → List Char
  | year => ['y']
  | month => ['m', 'o']
  | day => ['d']
  | hour => ['h']
  | minute => ['m']
  | second => ['s']
  | milli => ['m', 's']
  | micro => ['u', 's']
  | nano => ['n', 's']

/-- How many months a unit has. -/
def months : TimeUnit → Nat
  | year => 12
  | month => 1
  | _ => 0

/-- How many days a unit has. Months have none, as they differ in length. -/
def days : TimeUnit → Nat
  | day => 1
  | _ => 0

/-- How many nanoseconds a unit has. Days have none, as they differ in length. -/
def nanoseconds : TimeUnit → Nat
  | hour => 3600000000000
  | minute => 60000000000
  | second => 1000000000
  | milli => 1000000
  | micro => 1000
  | nano => 1
  | _ => 0

/-- How many of a unit make one of the next larger one, where that is counted too. -/
def limit? : TimeUnit → Option Nat
  | month => some 12
  | minute | second => some 60
  | milli | micro | nano => some 1000
  | year | day | hour => none

theorem symbol_injective : Function.Injective symbol := by
  intro u v h
  cases u <;> cases v <;> first | rfl | exact absurd h (by decide)

theorem isDigit_symbol (u : TimeUnit) : ∀ c ∈ u.symbol, c.isDigit = false := by
  have hall : u.symbol.all (fun c => !c.isDigit) = true := by cases u <;> rfl
  simpa using hall

theorem symbol_ne_nil (u : TimeUnit) : u.symbol ≠ [] := by
  cases u <;> decide

end TimeUnit

namespace Duration

/-! ## Amounts in a text -/

/-- Amounts in decimal digits with their units, one right after the other. -/
inductive Amounts : List Char → List (Nat × TimeUnit) → Prop
  | nil : Amounts [] []
  | cons {ds rest : List Char} {unit : TimeUnit} {amounts : List (Nat × TimeUnit)} (hne : ds ≠ [])
      (hdigits : ∀ c ∈ ds, c.isDigit = true) (hrest : Amounts rest amounts) :
      Amounts (ds ++ (unit.symbol ++ rest)) ((Nat.ofDigitChars 10 ds 0, unit) :: amounts)

/-- That a text is one or more amounts, after a minus sign or none. -/
def Tells (cs : List Char) (negative : Bool) (amounts : List (Nat × TimeUnit)) : Prop :=
  amounts ≠ [] ∧ ∃ ds, cs = Text.signed negative ds ∧ Amounts ds amounts

theorem Amounts.head_isDigit {cs : List Char} {amounts : List (Nat × TimeUnit)}
    (h : Amounts cs amounts) : ∀ c ∈ cs.head?, c.isDigit = true := by
  cases h with
  | nil => simp
  | @cons ds rest unit amounts hne hdigits _ =>
    rw [List.head?_append_of_ne_nil _ hne]
    exact fun c hc => hdigits c (List.mem_of_mem_head? hc)

theorem span_digits {ds : List Char} (hdigits : ∀ c ∈ ds, c.isDigit = true) (unit : TimeUnit)
    (rest : List Char) :
    (ds ++ (unit.symbol ++ rest)).span Char.isDigit = (ds, unit.symbol ++ rest) := by
  refine span_run hdigits fun c hc => ?_
  rw [List.head?_append_of_ne_nil _ unit.symbol_ne_nil] at hc
  exact unit.isDigit_symbol c (List.mem_of_mem_head? hc)

theorem span_symbol (unit : TimeUnit) {rest : List Char} (hrest : ∀ c ∈ rest.head?, c.isDigit = true) :
    (unit.symbol ++ rest).span (fun c => !c.isDigit) = (unit.symbol, rest) := by
  refine span_run (fun c hc => ?_) fun c hc => ?_
  · rw [unit.isDigit_symbol c hc, Bool.not_false]
  · rw [hrest c hc, Bool.not_true]

theorem Amounts.unique {cs : List Char} {amounts amounts' : List (Nat × TimeUnit)}
    (h : Amounts cs amounts) (h' : Amounts cs amounts') : amounts = amounts' := by
  induction h generalizing amounts' with
  | nil =>
    generalize hcs : ([] : List Char) = cs at h'
    cases h' with
    | nil => rfl
    | cons hne => simp [hne] at hcs
  | @cons ds rest unit amounts hne hdigits hrest ih =>
    generalize hcs : ds ++ (unit.symbol ++ rest) = cs at h'
    cases h' with
    | nil => simp [hne] at hcs
    | @cons ds' rest' unit' amounts' _ hdigits' hrest' =>
      have hspan := span_digits hdigits unit rest
      rw [hcs, span_digits hdigits' unit' rest', Prod.mk.injEq] at hspan
      obtain ⟨rfl, htail⟩ := hspan
      have hspan := span_symbol unit hrest.head_isDigit
      rw [← htail, span_symbol unit' hrest'.head_isDigit, Prod.mk.injEq] at hspan
      obtain ⟨hunit, rfl⟩ := hspan
      rw [TimeUnit.symbol_injective hunit, ih hrest']

theorem signed_inj {negative negative' : Bool} {cs cs' : List Char}
    (hdigit : ∀ c ∈ cs.head?, c.isDigit = true) (hother : ∀ c ∈ cs'.head?, c.isDigit = true)
    (h : Text.signed negative cs = Text.signed negative' cs') : negative = negative' ∧ cs = cs' := by
  -- Digits do not begin with a minus sign, so it is seen whether there is one.
  cases negative with
  | false =>
    cases negative' with
    | false => exact ⟨rfl, h⟩
    | true =>
      obtain rfl : cs = '-' :: cs' := h
      exact absurd (hdigit '-' rfl) (by decide)
  | true =>
    cases negative' with
    | false =>
      obtain rfl : '-' :: cs = cs' := h
      exact absurd (hother '-' rfl) (by decide)
    | true => exact ⟨rfl, List.tail_eq_of_cons_eq h⟩

theorem Tells.unique {cs : List Char} {negative negative' : Bool}
    {amounts amounts' : List (Nat × TimeUnit)} (h : Tells cs negative amounts)
    (h' : Tells cs negative' amounts') : negative = negative' ∧ amounts = amounts' := by
  obtain ⟨-, ds, rfl, hds⟩ := h
  obtain ⟨-, ds', hcs, hds'⟩ := h'
  obtain ⟨hsign, rfl⟩ := signed_inj hds.head_isDigit hds'.head_isDigit hcs
  exact ⟨hsign, hds.unique hds'⟩

/-! ## What amounts come to -/

/-- The sum of amounts, each as often as its unit weighs. -/
def total (weight : TimeUnit → Nat) (amounts : List (Nat × TimeUnit)) : Nat :=
  (amounts.map fun a => a.1 * weight a.2).sum

/-- The factor that a minus sign stands for. -/
def sign (negative : Bool) : Int :=
  if negative then -1 else 1

/-- That amounts with a sign for all of them come to the parts of a duration. -/
structure Recompose (negative : Bool) (amounts : List (Nat × TimeUnit)) (d : Duration) : Prop where
  months : d.months.toInt = sign negative * total TimeUnit.months amounts
  days : d.days.toInt = sign negative * total TimeUnit.days amounts
  nanoseconds : d.nanoseconds.toInt = sign negative * total TimeUnit.nanoseconds amounts

/-- That each unit stands once at most, a larger one first, and its amount makes no larger unit. -/
structure Carried (amounts : List (Nat × TimeUnit)) : Prop where
  ordered : (amounts.map (·.2)).Sublist TimeUnit.all
  lt_limit : ∀ a ∈ amounts, ∀ limit ∈ a.2.limit?, a.1 < limit

theorem Recompose.unique {negative : Bool} {amounts : List (Nat × TimeUnit)} {d e : Duration}
    (hd : Recompose negative amounts d) (he : Recompose negative amounts e) : d = e := by
  obtain ⟨months, days, nanoseconds, _⟩ := d
  obtain ⟨months', days', nanoseconds', _⟩ := e
  obtain rfl : months = months' := Int32.toInt_inj.mp (hd.months.trans he.months.symm)
  obtain rfl : days = days' := Int32.toInt_inj.mp (hd.days.trans he.days.symm)
  obtain rfl : nanoseconds = nanoseconds' :=
    Int64.toInt_inj.mp (hd.nanoseconds.trans he.nanoseconds.symm)
  rfl

theorem total_filter (weight : TimeUnit → Nat) (amounts : List (Nat × TimeUnit)) :
    total weight (amounts.filter (·.1 ≠ 0)) = total weight amounts := by
  unfold total
  induction amounts with
  | nil => rfl
  | cons a amounts ih =>
    by_cases hzero : a.1 = 0
    · rw [List.filter_cons_of_neg (by simp [hzero]), ih, List.map_cons, List.sum_cons, hzero,
        Nat.zero_mul, Nat.zero_add]
    · rw [List.filter_cons_of_pos (by simp [hzero]), List.map_cons, List.map_cons, List.sum_cons,
        List.sum_cons, ih]

/-! ## The text of a duration -/

variable (d : Duration)

/-- The amounts of all units. -/
def unitAmounts : List (Nat × TimeUnit) :=
  (d.amounts.map (·.1)).zip TimeUnit.all

/-- The amounts that show: those other than zero, or no seconds if there are none. -/
def shownAmounts : List (Nat × TimeUnit) :=
  if d.months = 0 ∧ d.days = 0 ∧ d.nanoseconds = 0 then [(0, .second)]
  else d.unitAmounts.filter (·.1 ≠ 0)

theorem amounts_eq : d.amounts = d.unitAmounts.map fun a => (a.1, a.2.symbol) := rfl

theorem isNegative_iff :
    d.isNegative = true ↔ d.months.toInt < 0 ∨ d.days.toInt < 0 ∨ d.nanoseconds.toInt < 0 := by
  simp [isNegative, Int32.lt_iff_toInt_lt, Int64.lt_iff_toInt_lt, or_assoc]

theorem eq_sign_mul_natAbs :
    d.months.toInt = sign d.isNegative * d.months.toInt.natAbs ∧
      d.days.toInt = sign d.isNegative * d.days.toInt.natAbs ∧
      d.nanoseconds.toInt = sign d.isNegative * d.nanoseconds.toInt.natAbs := by
  -- One sign stands for all parts, as no two have opposite ones.
  have hsame := d.sameSign
  have hnegative := d.isNegative_iff
  unfold SameSign at hsame
  unfold sign
  cases h : d.isNegative
  · simp only [h, Bool.false_eq_true, false_iff] at hnegative
    simp only [Bool.false_eq_true, if_false]
    omega
  · simp only [h, true_iff] at hnegative
    simp only [if_true]
    omega

theorem recompose_unitAmounts : Recompose d.isNegative d.unitAmounts d := by
  obtain ⟨hmonths, hdays, hnanos⟩ := d.eq_sign_mul_natAbs
  have htotal (weight : TimeUnit → Nat) : total weight d.unitAmounts =
      d.months.toInt.natAbs / 12 * weight .year + d.months.toInt.natAbs % 12 * weight .month +
        d.days.toInt.natAbs * weight .day +
        d.nanoseconds.toInt.natAbs / 3600000000000 * weight .hour +
        d.nanoseconds.toInt.natAbs / 60000000000 % 60 * weight .minute +
        d.nanoseconds.toInt.natAbs / 1000000000 % 60 * weight .second +
        d.nanoseconds.toInt.natAbs / 1000000 % 1000 * weight .milli +
        d.nanoseconds.toInt.natAbs / 1000 % 1000 * weight .micro +
        d.nanoseconds.toInt.natAbs % 1000 * weight .nano := by
    simp [total, unitAmounts, amounts, TimeUnit.all, Nat.add_assoc]
  constructor
  · rw [htotal, hmonths]
    congr 2
    simp only [TimeUnit.months]
    omega
  · rw [htotal, hdays]
    congr 2
    simp only [TimeUnit.days]
    omega
  · rw [htotal, hnanos]
    congr 2
    simp only [TimeUnit.nanoseconds]
    omega

theorem carried_unitAmounts : Carried d.unitAmounts where
  ordered := List.Sublist.refl _
  lt_limit := by
    simp only [unitAmounts, amounts, TimeUnit.all, List.map_cons, List.map_nil,
      List.zip_cons_cons, List.zip_nil_right, List.forall_mem_cons, TimeUnit.limit?,
      Option.mem_def, Option.some.injEq, forall_eq', reduceCtorEq, false_imp_iff, implies_true,
      List.not_mem_nil, true_and, and_true]
    omega

theorem amounts_of_unitAmounts (units : List (Nat × TimeUnit)) :
    Amounts ((units.map fun a => (a.1, a.2.symbol)).flatMap amountNumeral)
      (units.filter (·.1 ≠ 0)) := by
  induction units with
  | nil => exact .nil
  | cons a units ih =>
    rw [List.map_cons, List.flatMap_cons]
    by_cases hzero : a.1 = 0
    · rw [List.filter_cons_of_neg (by simp [hzero]), amountNumeral, if_pos hzero]
      exact ih
    · rw [List.filter_cons_of_pos (by simp [hzero]), amountNumeral, if_neg hzero, List.append_assoc]
      have h : Amounts (Text.digits a.1 ++ (a.2.symbol ++ _))
          ((Nat.ofDigitChars 10 (Text.digits a.1) 0, a.2) :: _) :=
        .cons (Text.digits_ne_nil a.1) Text.isDigit_digits ih
      rwa [Text.ofDigitChars_digits] at h

theorem recompose_iff_of_total {negative : Bool} {amounts : List (Nat × TimeUnit)}
    (h : ∀ weight, total weight amounts = 0) :
    Recompose negative amounts d ↔ d.months = 0 ∧ d.days = 0 ∧ d.nanoseconds = 0 := by
  have hzero : sign negative * ((0 : Nat) : Int) = 0 := Int.mul_zero _
  constructor
  · rintro ⟨hmonths, hdays, hnanos⟩
    rw [h, hzero] at hmonths hdays hnanos
    exact ⟨Int32.toInt_inj.mp hmonths, Int32.toInt_inj.mp hdays, Int64.toInt_inj.mp hnanos⟩
  · rintro ⟨hmonths, hdays, hnanos⟩
    constructor
    · rw [h, hzero, hmonths, Int32.toInt_zero]
    · rw [h, hzero, hdays, Int32.toInt_zero]
    · rw [h, hzero, hnanos, Int64.toInt_zero]

theorem recompose_shownAmounts : Recompose d.isNegative d.shownAmounts d := by
  unfold shownAmounts
  split
  · rename_i hzero
    refine (d.recompose_iff_of_total fun weight => ?_).mpr hzero
    simp [total]
  · have h := d.recompose_unitAmounts
    constructor
    · rw [total_filter]
      exact h.months
    · rw [total_filter]
      exact h.days
    · rw [total_filter]
      exact h.nanoseconds

theorem carried_shownAmounts : Carried d.shownAmounts := by
  unfold shownAmounts
  split
  · constructor
    · decide
    · simp [TimeUnit.limit?]
  · have h := d.carried_unitAmounts
    constructor
    · exact (List.filter_sublist.map _).trans h.ordered
    · intro a ha
      exact h.lt_limit a (List.mem_of_mem_filter ha)

theorem numeral_tells : Tells d.numeral d.isNegative d.shownAmounts := by
  have hrecompose := d.recompose_shownAmounts
  unfold numeral shownAmounts at *
  split
  · rename_i hzero
    have hsign : d.isNegative = false := by
      rw [← Bool.not_eq_true, isNegative_iff, hzero.1, hzero.2.1, hzero.2.2]
      decide
    have hseconds : Amounts (['0'] ++ (TimeUnit.second.symbol ++ []))
        [(Nat.ofDigitChars 10 ['0'] 0, .second)] :=
      .cons (by decide) (List.forall_mem_singleton.mpr rfl) .nil
    rw [hsign]
    exact ⟨by decide, _, rfl, hseconds⟩
  · rename_i hzero
    rw [if_neg hzero] at hrecompose
    refine ⟨?_, _, ?_, d.amounts_eq ▸ amounts_of_unitAmounts d.unitAmounts⟩
    · intro hnil
      rw [hnil] at hrecompose
      exact hzero ((d.recompose_iff_of_total fun weight => rfl).mp hrecompose)
    · cases d.isNegative <;> rfl

/-- The amounts in the text of a duration, which can be read in one way only, come to the duration,
and none of them reaches a larger unit. Two durations have the same text exactly if they are the
same. -/
theorem text_identifies :
    (∀ d : Duration, ∃ negative amounts,
      (∀ negative' amounts', Tells d.text.toList negative' amounts' ↔
        negative' = negative ∧ amounts' = amounts) ∧
      Recompose negative amounts d ∧ Carried amounts) ∧
    ∀ d e : Duration, d.text = e.text ↔ d = e := by
  have htells (d : Duration) : Tells d.text.toList d.isNegative d.shownAmounts := by
    rw [text, String.toList_ofList]
    exact d.numeral_tells
  refine ⟨fun d => ⟨d.isNegative, d.shownAmounts, ?read, ?_, ?_⟩, fun d e => ⟨?same, ?_⟩⟩
  case read =>
    intro negative amounts
    constructor
    · intro h
      exact h.unique (htells d)
    · rintro ⟨rfl, rfl⟩
      exact htells d
  · exact d.recompose_shownAmounts
  · exact d.carried_shownAmounts
  case same =>
    intro h
    have hd := htells d
    rw [h] at hd
    obtain ⟨hsign, hamounts⟩ := hd.unique (htells e)
    have hrecompose := d.recompose_shownAmounts
    rw [hsign, hamounts] at hrecompose
    exact hrecompose.unique e.recompose_shownAmounts
  · exact congrArg text

/-! The least amounts of all, whose magnitudes their own types do not hold. -/

example : (⟨-2147483648, -2147483648, -9223372036854775808, by decide⟩ : Duration).text =
    "-178956970y8mo2147483648d2562047h47m16s854ms775us808ns" := by
  decide

end Duration

end WideRow
