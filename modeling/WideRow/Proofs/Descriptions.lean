import Mathlib.Data.List.Forall2
import WideRow.Proofs.Digest
import WideRow.Proofs.Scalar

/-!
# What a description tells

Equal values are described alike, whatever digest condenses the description. A description also
tells all else apart: only the sign of a zero, the types of a structure and the bits of what is no
number make no difference to it, or one that equality does not make.
-/

namespace WideRow

namespace Binary64

/-- Two values that are the same number, or the same bits where there is none. -/
def Alike (x y : Binary64) : Prop :=
  x.sameNumber y = true ∨ x = y

def IsZero (x : Binary64) : Prop :=
  ∃ negative exponent, x.classify = .finite negative 0 exponent

theorem sameNumber_of_isZero {x y : Binary64} (hx : x.IsZero) (hy : y.IsZero) :
    x.sameNumber y = true := by
  obtain ⟨_, _, hx⟩ := hx
  obtain ⟨_, _, hy⟩ := hy
  rw [sameNumber_eq, hx, hy]
  rfl

theorem bitsOfNumber_cases (x : Binary64) :
    (x.IsZero ∧ x.bitsOfNumber = 0) ∨ x.bitsOfNumber = x.bits.toNat := by
  unfold bitsOfNumber
  split
  · rename_i hzero
    exact .inl ⟨⟨_, _, hzero⟩, rfl⟩
  · exact .inr rfl

theorem isZero_of_bits {x : Binary64} (h : x.bits.toNat = 0) : x.IsZero := by
  have hx : x = zero := congrArg mk (UInt64.toNat_inj.mp h)
  rw [hx]
  exact ⟨false, _, rfl⟩

theorem alike_of_bitsOfNumber {x y : Binary64} (h : x.bitsOfNumber = y.bitsOfNumber) : x.Alike y := by
  rcases bitsOfNumber_cases x with ⟨hx, hxbits⟩ | hxbits <;>
    rcases bitsOfNumber_cases y with ⟨hy, hybits⟩ | hybits
  · exact .inl (sameNumber_of_isZero hx hy)
  · exact .inl (sameNumber_of_isZero hx (isZero_of_bits (by omega)))
  · exact .inl (sameNumber_of_isZero (isZero_of_bits (by omega)) hy)
  · exact .inr (congrArg mk (UInt64.toNat_inj.mp (by omega)))

theorem Alike.bitsOfNumber {x y : Binary64} (h : x.Alike y) : x.bitsOfNumber = y.bitsOfNumber := by
  rcases h with hsame | rfl
  · exact bitsOfNumber_of_same hsame
  · rfl

end Binary64

namespace Value

/-- Values that differ at most in the signs of zeros and in the types of structures. A 32-bit number
counts as the 64-bit one that it widens to. -/
inductive Alike : Value → Value → Prop where
  | self (v : Value) : Alike v v
  | float {a b : Binary32} (h : (Binary64.ofBinary32 a).Alike (Binary64.ofBinary32 b)) :
      Alike (.float a) (.float b)
  | double {a b : Binary64} (h : a.Alike b) : Alike (.double a) (.double b)
  | list {a b : List Value} (h : List.Forall₂ Alike a b) : Alike (.list a) (.list b)
  | set {a b : List Value} (h : List.Forall₂ Alike a b) : Alike (.set a) (.set b)
  | map {a b : List (Value × Value)} (hkeys : List.Forall₂ Alike (a.map (·.1)) (b.map (·.1)))
      (hvalues : List.Forall₂ Alike (a.map (·.2)) (b.map (·.2))) : Alike (.map a) (.map b)
  | udt (d e : UdtType) (components : List (Option Bytes)) :
      Alike (.udt d components) (.udt e components)
  | tuple (t u : List ColumnType) (components : List (Option Bytes)) :
      Alike (.tuple t components) (.tuple u components)

theorem Alike.of_eq {v w : Value} (h : v = w) : Alike v w :=
  h ▸ .self v

/-! ## Parts of descriptions -/

theorem number_append_inj {k l m n : Nat} {r s : List Nat} (h : [k, m] ++ r = [l, n] ++ s) :
    m = n ∧ r = s := by
  simp only [List.cons_append, List.nil_append, List.cons.injEq] at h
  exact h.2

theorem counted_append_inj {α : Type} {f : α → Nat} (hf : Function.Injective f) {a b : List α}
    {r s : List Nat} (h : (a.length :: a.map f) ++ r = (b.length :: b.map f) ++ s) : a = b ∧ r = s := by
  -- A counted list is told from whatever follows it.
  rw [List.cons_append, List.cons_append, List.cons.injEq] at h
  obtain ⟨hmap, hrest⟩ := List.append_inj h.2 (by simpa using h.1)
  exact ⟨List.map_injective_iff.mpr hf hmap, hrest⟩

theorem bytes_append_inj {a b : Bytes} {r s : List Nat}
    (h : (a.length :: a.map UInt8.toNat) ++ r = (b.length :: b.map UInt8.toNat) ++ s) :
    a = b ∧ r = s :=
  counted_append_inj (fun _ _ => UInt8.toNat_inj.mp) h

theorem describeVarint_append_inj {v w : Varint} {r s : List Nat}
    (h : describeVarint v ++ r = describeVarint w ++ s) : v = w ∧ r = s := by
  obtain ⟨hsign, hlimbs⟩ := List.cons.inj h
  obtain ⟨hmagnitude, hrest⟩ := counted_append_inj (fun _ _ => UInt32.toNat_inj.mp) hlimbs
  have hnegative : v.negative = w.negative := by
    cases hv : v.negative <;> cases hw : w.negative <;> simp_all
  cases v
  cases w
  simp_all

theorem describeAddress_append_inj {a b : Address} {r s : List Nat}
    (h : describeAddress a ++ r = describeAddress b ++ s) : a = b ∧ r = s := by
  cases a <;> cases b <;> simp [describeAddress, BitVec.toNat_inj] at h ⊢
  · exact h
  · exact h

/-- The bytes of one component. -/
def describeComponent : Option Bytes → List Nat
  | none => [0]
  | some b => 1 :: b.length :: b.map UInt8.toNat

theorem describeComponent_append_inj {a b : Option Bytes} {r s : List Nat}
    (h : describeComponent a ++ r = describeComponent b ++ s) : a = b ∧ r = s := by
  cases a <;> cases b
  · simpa [describeComponent] using h
  · simp [describeComponent] at h
  · simp [describeComponent] at h
  · obtain ⟨hbytes, hrest⟩ := bytes_append_inj (List.cons.inj h).2
    exact ⟨congrArg some hbytes, hrest⟩

theorem describeComponents_append_inj {a b : List (Option Bytes)} {r s : List Nat}
    (h : describeComponents a ++ r = describeComponents b ++ s) : a = b ∧ r = s := by
  have heach : ∀ cs, describeComponents cs = cs.length :: cs.flatMap describeComponent := fun _ => rfl
  rw [heach, heach, List.cons_append, List.cons_append, List.cons.injEq] at h
  obtain ⟨hlength, hcomponents⟩ := h
  induction a generalizing b with
  | nil =>
    cases b with
    | nil => exact ⟨rfl, hcomponents⟩
    | cons => cases hlength
  | cons x xs ih =>
    cases b with
    | nil => cases hlength
    | cons y ys =>
      rw [List.flatMap_cons, List.flatMap_cons, List.append_assoc, List.append_assoc] at hcomponents
      obtain ⟨rfl, hlater⟩ := describeComponent_append_inj hcomponents
      obtain ⟨rfl, hrest⟩ := ih (by simpa using hlength) hlater
      exact ⟨rfl, hrest⟩

theorem toWire_injective {d e : Date} (h : d.toWire = e.toWire) : d = e := by
  have hd := d.ofWire_toWire
  rw [h, e.ofWire_toWire] at hd
  exact (Except.ok.inj hd).symm

/-! ## Values without values in them -/

section

variable {r s : List Nat}

theorem alike_of_number {α : Type} {make : α → Value} {number : α → Nat} {kind : Nat}
    (hdescribe : ∀ a, (make a).describe = [kind, number a]) (hnumber : Function.Injective number)
    {a b : α} (h : (make a).describe ++ r = (make b).describe ++ s) :
    Alike (make a) (make b) ∧ r = s := by
  rw [hdescribe, hdescribe] at h
  obtain ⟨hsame, hrest⟩ := number_append_inj h
  exact ⟨.of_eq (congrArg make (hnumber hsame)), hrest⟩

theorem toNat_bool_injective : Function.Injective Bool.toNat := by
  intro a b h
  cases a <;> cases b <;> first | rfl | cases h

theorem millis_time_injective : Function.Injective TimeOfDay.millis := by
  intro a b h
  obtain ⟨_, _⟩ := a
  obtain ⟨_, _⟩ := b
  cases h
  rfl

theorem millis_timestamp_injective :
    Function.Injective fun t : Timestamp => t.millis.toUInt64.toNat := by
  intro a b h
  exact congrArg (Timestamp.mk ∘ UInt64.toInt64) (UInt64.toNat_inj.mp h)

theorem alike_float {a b : Binary32} (h : (float a).describe ++ r = (float b).describe ++ s) :
    Alike (float a) (float b) ∧ r = s := by
  obtain ⟨hbits, hrest⟩ := number_append_inj h
  exact ⟨.float (Binary64.alike_of_bitsOfNumber hbits), hrest⟩

theorem alike_double {a b : Binary64} (h : (double a).describe ++ r = (double b).describe ++ s) :
    Alike (double a) (double b) ∧ r = s := by
  obtain ⟨hbits, hrest⟩ := number_append_inj h
  exact ⟨.double (Binary64.alike_of_bitsOfNumber hbits), hrest⟩

theorem alike_decimal {a b : Decimal} (h : (decimal a).describe ++ r = (decimal b).describe ++ s) :
    Alike (decimal a) (decimal b) ∧ r = s := by
  obtain ⟨hscale, hunscaled⟩ := List.cons.inj (List.cons.inj h).2
  have hscale : a.scale = b.scale := congrArg UInt32.toInt32 (UInt32.toNat_inj.mp hscale)
  obtain ⟨hunscaled, hrest⟩ := describeVarint_append_inj hunscaled
  obtain ⟨_, _⟩ := a
  obtain ⟨_, _⟩ := b
  cases hscale
  cases hunscaled
  exact ⟨.self _, hrest⟩

theorem alike_varint {a b : Varint} (h : (varint a).describe ++ r = (varint b).describe ++ s) :
    Alike (varint a) (varint b) ∧ r = s := by
  obtain ⟨hsame, hrest⟩ := describeVarint_append_inj (List.cons.inj h).2
  exact ⟨.of_eq (congrArg varint hsame), hrest⟩

theorem alike_text {a b : String} (h : (text a).describe ++ r = (text b).describe ++ s) :
    Alike (text a) (text b) ∧ r = s := by
  have hlength : ∀ t : String, t.length = t.toList.length := fun _ => rfl
  rw [describe, describe, hlength, hlength] at h
  obtain ⟨hchars, hrest⟩ := counted_append_inj (fun _ _ => Char.toNat_inj.mp) (List.cons.inj h).2
  exact ⟨.of_eq (congrArg text (String.toList_inj.mp hchars)), hrest⟩

theorem alike_blob {a b : Bytes} (h : (blob a).describe ++ r = (blob b).describe ++ s) :
    Alike (blob a) (blob b) ∧ r = s := by
  obtain ⟨hsame, hrest⟩ := bytes_append_inj (List.cons.inj h).2
  exact ⟨.of_eq (congrArg blob hsame), hrest⟩

theorem alike_inet {a b : Address} (h : (inet a).describe ++ r = (inet b).describe ++ s) :
    Alike (inet a) (inet b) ∧ r = s := by
  obtain ⟨hsame, hrest⟩ := describeAddress_append_inj (List.cons.inj h).2
  exact ⟨.of_eq (congrArg inet hsame), hrest⟩

theorem alike_duration {a b : Duration}
    (h : (duration a).describe ++ r = (duration b).describe ++ s) :
    Alike (duration a) (duration b) ∧ r = s := by
  simp only [describe, List.cons_append, List.nil_append, List.cons.injEq] at h
  obtain ⟨-, hmonths, hdays, hnanoseconds, hrest⟩ := h
  have hmonths : a.months = b.months := congrArg UInt32.toInt32 (UInt32.toNat_inj.mp hmonths)
  have hdays : a.days = b.days := congrArg UInt32.toInt32 (UInt32.toNat_inj.mp hdays)
  have hnanoseconds : a.nanoseconds = b.nanoseconds :=
    congrArg UInt64.toInt64 (UInt64.toNat_inj.mp hnanoseconds)
  obtain ⟨_, _, _⟩ := a
  obtain ⟨_, _, _⟩ := b
  cases hmonths
  cases hdays
  cases hnanoseconds
  exact ⟨.self _, hrest⟩

theorem alike_udt {d e : UdtType} {a b : List (Option Bytes)}
    (h : (udt d a).describe ++ r = (udt e b).describe ++ s) :
    Alike (udt d a) (udt e b) ∧ r = s := by
  obtain ⟨rfl, hrest⟩ := describeComponents_append_inj (List.cons.inj h).2
  exact ⟨.udt d e a, hrest⟩

theorem alike_tuple {t u : List ColumnType} {a b : List (Option Bytes)}
    (h : (tuple t a).describe ++ r = (tuple u b).describe ++ s) :
    Alike (tuple t a) (tuple u b) ∧ r = s := by
  obtain ⟨rfl, hrest⟩ := describeComponents_append_inj (List.cons.inj h).2
  exact ⟨.tuple t u a, hrest⟩

/-- Whether a value has no values in it. The components of a structure are bytes. -/
def IsLeaf : Value → Prop
  | list _ | set _ | map _ => False
  | _ => True

theorem kind_eq {v w : Value} (h : v.describe ++ r = w.describe ++ s) : v.ctorIdx = w.ctorIdx := by
  have hkind (u : Value) : u.describe.head? = some u.ctorIdx := by cases u <;> rfl
  have hhead (u : Value) (t : List Nat) : (u.describe ++ t).head? = some u.ctorIdx := by
    rw [List.head?_append, hkind]
    rfl
  have hsame := congrArg List.head? h
  rwa [hhead, hhead, Option.some_inj] at hsame

theorem alike_of_leaf {v w : Value} (hleaf : v.IsLeaf) (h : v.describe ++ r = w.describe ++ s) :
    Alike v w ∧ r = s := by
  have hkind := kind_eq h
  cases v with
  | null =>
    cases w with
    | null => exact ⟨.self _, List.append_cancel_left h⟩
    | _ => cases hkind
  | boolean a =>
    cases w with
    | boolean b => exact alike_of_number (fun _ => rfl) toNat_bool_injective h
    | _ => cases hkind
  | tinyint a =>
    cases w with
    | tinyint b =>
      exact alike_of_number (fun _ => rfl)
        (fun _ _ h => congrArg UInt8.toInt8 (UInt8.toNat_inj.mp h)) h
    | _ => cases hkind
  | smallint a =>
    cases w with
    | smallint b =>
      exact alike_of_number (fun _ => rfl)
        (fun _ _ h => congrArg UInt16.toInt16 (UInt16.toNat_inj.mp h)) h
    | _ => cases hkind
  | int a =>
    cases w with
    | int b =>
      exact alike_of_number (fun _ => rfl)
        (fun _ _ h => congrArg UInt32.toInt32 (UInt32.toNat_inj.mp h)) h
    | _ => cases hkind
  | bigint a =>
    cases w with
    | bigint b =>
      exact alike_of_number (fun _ => rfl)
        (fun _ _ h => congrArg UInt64.toInt64 (UInt64.toNat_inj.mp h)) h
    | _ => cases hkind
  | float a =>
    cases w with
    | float b => exact alike_float h
    | _ => cases hkind
  | double a =>
    cases w with
    | double b => exact alike_double h
    | _ => cases hkind
  | decimal a =>
    cases w with
    | decimal b => exact alike_decimal h
    | _ => cases hkind
  | varint a =>
    cases w with
    | varint b => exact alike_varint h
    | _ => cases hkind
  | text a =>
    cases w with
    | text b => exact alike_text h
    | _ => cases hkind
  | blob a =>
    cases w with
    | blob b => exact alike_blob h
    | _ => cases hkind
  | uuid a =>
    cases w with
    | uuid b =>
      exact alike_of_number (fun _ => rfl)
        (fun _ _ h => congrArg Uuid.mk (BitVec.toNat_inj.mp h)) h
    | _ => cases hkind
  | inet a =>
    cases w with
    | inet b => exact alike_inet h
    | _ => cases hkind
  | date a =>
    cases w with
    | date b =>
      exact alike_of_number (fun _ => rfl)
        (fun _ _ h => toWire_injective (UInt32.toNat_inj.mp h)) h
    | _ => cases hkind
  | time a =>
    cases w with
    | time b => exact alike_of_number (fun _ => rfl) millis_time_injective h
    | _ => cases hkind
  | timestamp a =>
    cases w with
    | timestamp b => exact alike_of_number (fun _ => rfl) millis_timestamp_injective h
    | _ => cases hkind
  | duration a =>
    cases w with
    | duration b => exact alike_duration h
    | _ => cases hkind
  | udt d a =>
    cases w with
    | udt e b => exact alike_udt h
    | _ => cases hkind
  | tuple t a =>
    cases w with
    | tuple u b => exact alike_tuple h
    | _ => cases hkind
  | list | set | map => exact hleaf.elim

end

/-! ## Descriptions -/

mutual

theorem alike_of_append : ∀ (v w : Value) {r s : List Nat}, v.describe ++ r = w.describe ++ s →
    Alike v w ∧ r = s
  | .list a, w, r, s, h => by
    cases w with
    | list b =>
      obtain ⟨hlength, hitems⟩ := List.cons.inj (List.cons.inj h).2
      obtain ⟨halike, hrest⟩ := alikeItems_of_append a b hlength hitems
      exact ⟨.list halike, hrest⟩
    | _ => cases kind_eq h
  | .set a, w, r, s, h => by
    cases w with
    | set b =>
      obtain ⟨hlength, hitems⟩ := List.cons.inj (List.cons.inj h).2
      obtain ⟨halike, hrest⟩ := alikeItems_of_append a b hlength hitems
      exact ⟨.set halike, hrest⟩
    | _ => cases kind_eq h
  | .map a, w, r, s, h => by
    cases w with
    | map b =>
      obtain ⟨hlength, hentries⟩ := List.cons.inj (List.cons.inj h).2
      obtain ⟨hkeys, hvalues, hrest⟩ := alikeEntries_of_append a b hlength hentries
      exact ⟨.map hkeys hvalues, hrest⟩
    | _ => cases kind_eq h
  | .null, _, _, _, h | .boolean _, _, _, _, h | .tinyint _, _, _, _, h | .smallint _, _, _, _, h
  | .int _, _, _, _, h | .bigint _, _, _, _, h | .float _, _, _, _, h | .double _, _, _, _, h
  | .decimal _, _, _, _, h | .varint _, _, _, _, h | .text _, _, _, _, h | .blob _, _, _, _, h
  | .uuid _, _, _, _, h | .inet _, _, _, _, h | .date _, _, _, _, h | .time _, _, _, _, h
  | .timestamp _, _, _, _, h | .duration _, _, _, _, h | .udt _ _, _, _, _, h
  | .tuple _ _, _, _, _, h => alike_of_leaf trivial h

theorem alikeItems_of_append : ∀ (a b : List Value) {r s : List Nat}, a.length = b.length →
    describeItems a ++ r = describeItems b ++ s → List.Forall₂ Alike a b ∧ r = s
  | [], [], _, _, _, h => ⟨.nil, h⟩
  | [], _ :: _, _, _, hlength, _ | _ :: _, [], _, _, hlength, _ => by cases hlength
  | x :: xs, y :: ys, _, _, hlength, h => by
    rw [describeItems, describeItems, List.append_assoc, List.append_assoc] at h
    obtain ⟨hfirst, hlater⟩ := alike_of_append x y h
    obtain ⟨hitems, hrest⟩ := alikeItems_of_append xs ys (Nat.succ.inj hlength) hlater
    exact ⟨.cons hfirst hitems, hrest⟩

theorem alikeEntries_of_append : ∀ (a b : List (Value × Value)) {r s : List Nat},
    a.length = b.length → describeEntries a ++ r = describeEntries b ++ s →
    List.Forall₂ Alike (a.map (·.1)) (b.map (·.1)) ∧
      List.Forall₂ Alike (a.map (·.2)) (b.map (·.2)) ∧ r = s
  | [], [], _, _, _, h => ⟨.nil, .nil, h⟩
  | [], _ :: _, _, _, hlength, _ | _ :: _, [], _, _, hlength, _ => by cases hlength
  | (k, v) :: xs, (l, w) :: ys, _, _, hlength, h => by
    simp only [describeEntries, List.append_assoc] at h
    obtain ⟨hkey, hafter⟩ := alike_of_append k l h
    obtain ⟨hvalue, hlater⟩ := alike_of_append v w hafter
    obtain ⟨hkeys, hvalues, hrest⟩ := alikeEntries_of_append xs ys (Nat.succ.inj hlength) hlater
    exact ⟨.cons hkey hkeys, .cons hvalue hvalues, hrest⟩

end

mutual

theorem describe_of_alike : ∀ (v : Value) {w : Value}, Alike v w → v.describe = w.describe
  | _, _, .self _ => rfl
  | .float _, _, .float h => by rw [describe, describe, h.bitsOfNumber]
  | .double _, _, .double h => by rw [describe, describe, h.bitsOfNumber]
  | .list a, _, .list h => by rw [describe, describe, h.length_eq, describeItems_of_alike a h]
  | .set a, _, .set h => by rw [describe, describe, h.length_eq, describeItems_of_alike a h]
  | .map a, _, @Alike.map _ b hkeys hvalues => by
    have hlength : a.length = b.length := by simpa using hkeys.length_eq
    rw [describe, describe, hlength, describeEntries_of_alike a b hkeys hvalues]
  | .udt .., _, .udt .. => rfl
  | .tuple .., _, .tuple .. => rfl

theorem describeItems_of_alike : ∀ (a : List Value) {b : List Value}, List.Forall₂ Alike a b →
    describeItems a = describeItems b
  | [], _, .nil => rfl
  | x :: xs, _, .cons hx hxs => by
    rw [describeItems, describeItems, describe_of_alike x hx, describeItems_of_alike xs hxs]

theorem describeEntries_of_alike : ∀ a b : List (Value × Value),
    List.Forall₂ Alike (a.map (·.1)) (b.map (·.1)) →
    List.Forall₂ Alike (a.map (·.2)) (b.map (·.2)) → describeEntries a = describeEntries b
  | [], [], _, _ => rfl
  | (k, v) :: xs, (l, w) :: ys, .cons hk hks, .cons hv hvs => by
    rw [describeEntries, describeEntries, describe_of_alike k hk, describe_of_alike v hv,
      describeEntries_of_alike xs ys hks hvs]

end

theorem describe_eq_iff {v w : Value} : v.describe = w.describe ↔ Alike v w := by
  constructor
  · intro h
    exact (alike_of_append v w (congrArg (· ++ []) h)).1
  · exact describe_of_alike v

/-- Values that are equal have one description, so whatever digest is taken of it is one, too. Two
descriptions are one exactly if the values differ at most in the signs of zeros and in the types of
structures. -/
theorem equal_values_described_alike :
    (∀ v w : Value, v.same w = true →
      v.describe = w.describe ∧ ∀ digest : Digest, digest v.describe = digest w.describe) ∧
      ∀ v w : Value, v.describe = w.describe ↔ Alike v w := by
  refine ⟨fun v w h => ⟨describe_of_same h, fun digest => ?_⟩, fun _ _ => describe_eq_iff⟩
  rw [describe_of_same h]

/-- Zeros of both widths and signs inside a set inside a map, and two tuples whose types differ. -/
theorem equal_values_described_alike_zeros :
    let v : Value := .map [(.set [.float ⟨0x80000000⟩, .varint (Varint.ofInt64 7)],
      .list [.double ⟨0⟩, .decimal (Decimal.ofInt64 5)])]
    let w : Value := .map [(.set [.float ⟨0⟩, .varint (Varint.ofInt64 7)],
      .list [.double ⟨0x8000000000000000⟩, .decimal (Decimal.ofInt64 5)])]
    let t : Value := .tuple [.scalar .int] [some [0, 0, 0, 1], none]
    let u : Value := .tuple [.scalar .blob] [some [0, 0, 0, 1], none]
    v.same w = true ∧ v.describe = w.describe ∧ mixDigest v.describe = mixDigest w.describe ∧
      t.same u = false ∧ t.describe = u.describe := by
  intro v w t u
  have hsame : v.same w = true := by decide
  obtain ⟨hequal, halike⟩ := equal_values_described_alike
  obtain ⟨hdescribe, hdigest⟩ := hequal v w hsame
  exact ⟨hsame, hdescribe, hdigest mixDigest, by decide, (halike t u).mpr (.tuple _ _ _)⟩

end Value

end WideRow
