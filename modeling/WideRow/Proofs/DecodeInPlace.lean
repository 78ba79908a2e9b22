import WideRow.Proofs.DurationGrammar
import WideRow.Proofs.InPlace
import WideRow.Proofs.RoundTrip

/-!
# Decoding in place

Scalars that look at single bytes or do arithmetic, and then values of every type, are decoded from
an input that is not cut. The outcome is that of decoding the byte string, so no step goes wrong.
-/

namespace WideRow

open Framing Result

namespace InPlace

/-! ## Scalars in place -/

section

variable {ε : Type} {limit : Nat} {b rest : Bytes}

def readDecimal (b : Bytes) : Checked ClientError Decimal :=
  if b.length < 5 then
    fail (.decode "decimal" (.decimalWidth b.length))
  else do
    let scale ← headInt b
    let unscaled ← slice b 4 b.length
    return ⟨Varint.ofSignedBytes unscaled, Int32.ofInt scale⟩

/-- Shifts the bytes at a position into a number, as many as asked. -/
def takeTail (limit : Nat) (b : Bytes) : Nat → UInt64 → Nat → Checked ε (Option (UInt64 × Nat))
  | 0, value, position => .ok (some (value, position))
  | extra + 1, value, position =>
    match b[position]? with
    | none => .ok none
    | some x => do
      let position ← upTo limit (position + 1)
      takeTail limit b extra (value <<< 8 ||| x.toUInt64) position

def takeVint (limit : Nat) (b : Bytes) (position : Nat) : Checked ε (Option (UInt64 × Nat)) :=
  match b[position]? with
  | none => .ok none
  | some x => do
    let position ← upTo limit (position + 1)
    let amount ← shiftAmount (Vint.leadingOnes x)
    takeTail limit b (Vint.leadingOnes x) (x.toUInt64 &&& 0xFF >>> amount) position

def takePart (limit : Nat) (part : String) (b : Bytes) (position : Nat) :
    Checked ClientError (Int64 × Nat) := do
  match ← takeVint limit b position with
  | some (v, position) => return (Vint.unzigzag v, position)
  | none => fail (.decode "duration" (.missingPart part))

def readDuration (limit : Nat) (b : Bytes) : Checked ClientError Duration := do
  let (months, position) ← takePart limit "months" b 0
  let (days, position) ← takePart limit "days" b position
  let (nanoseconds, position) ← takePart limit "nanoseconds" b position
  if position ≠ b.length then
    fail (.decode "duration" (.trailing (← sub b.length position)))
  else
    let months ← lift (Duration.narrowPart "months" months)
    let days ← lift (Duration.narrowPart "days" days)
    lift (Duration.ofParts months days nanoseconds)

theorem readDecimal_eq_lift (b : Bytes) : readDecimal b = lift (Decimal.ofBytes b) := by
  unfold readDecimal Decimal.ofBytes
  split
  · rfl
  · rename_i hlength
    have hhead : (b.take 4).length = 4 := by
      simp
      omega
    have hint := headInt_append (ε := ClientError) hhead (b.drop 4)
    have hslice := slice_append (ε := ClientError) (b.take 4) (b.drop 4) []
    have hstop : 4 + (b.drop 4).length = b.length := by
      simp
      omega
    rw [List.take_append_drop] at hint
    rw [List.append_nil, List.take_append_drop, hhead, hstop] at hslice
    rw [hint, ok_bind, hslice]
    rfl

/-! ### Integers of variable length -/

theorem shift_or_byte (n : Nat) (x : UInt8) :
    UInt64.ofNat n <<< 8 ||| x.toUInt64 = UInt64.ofNat (n * 256 + x.toNat) := by
  have hx : x.toNat < 2 ^ 8 := x.toNat_lt
  have hshifted : (UInt64.ofNat n <<< 8).toNat = (n % 2 ^ 56) <<< 8 := by
    simp [UInt64.toNat_shiftLeft, Nat.shiftLeft_eq]
    omega
  apply UInt64.toNat_inj.mp
  rw [UInt64.toNat_or, hshifted, UInt8.toNat_toUInt64, ← Nat.shiftLeft_add_eq_or_of_lt hx]
  simp [Nat.shiftLeft_eq]
  omega

theorem mask_leadingOnes (x : UInt8) :
    x.toUInt64 &&& 0xFF >>> UInt64.ofNat (Vint.leadingOnes x) =
      UInt64.ofNat (x.toNat % 2 ^ (8 - Vint.leadingOnes x)) := by
  have hbytes : ∀ n < 256, (UInt8.ofNat n).toUInt64 &&&
      0xFF >>> UInt64.ofNat (Vint.leadingOnes (UInt8.ofNat n)) =
      UInt64.ofNat ((UInt8.ofNat n).toNat % 2 ^ (8 - Vint.leadingOnes (UInt8.ofNat n))) := by
    decide +kernel
  have hx := hbytes x.toNat x.toNat_lt
  rwa [UInt8.ofNat_toNat] at hx

theorem getElem?_before (h : rest <:+ b) : b[(before b rest).position]? = rest.head? := by
  obtain ⟨front, rfl⟩ := h
  simp [before, List.head?_eq_getElem?, List.getElem?_append_right]

theorem next_before {x : UInt8} {tail : Bytes} (hb : b.length ≤ limit) (h : x :: tail <:+ b) :
    upTo limit ((before b (x :: tail)).position + 1) =
      (.ok (before b tail).position : Checked ε Nat) := by
  have hle := h.length_le
  have hnext : (before b (x :: tail)).position + 1 = (before b tail).position := by
    simp only [before, List.length_cons] at *
    omega
  rw [hnext, upTo_ok]
  simp [before]
  omega

theorem takeTail_before (hb : b.length ≤ limit) (extra n : Nat) (h : rest <:+ b) :
    takeTail limit b extra (UInt64.ofNat n) (before b rest).position =
      (.ok ((Vint.readTail n extra rest).map fun (m, tail) =>
        (UInt64.ofNat m, (before b tail).position)) : Checked ε _) := by
  induction extra generalizing n rest with
  | zero => rfl
  | succ extra ih =>
    unfold takeTail
    rw [getElem?_before h]
    cases rest with
    | nil => rfl
    | cons x tail =>
      have htail : tail <:+ b := (List.suffix_cons x tail).trans h
      simp only [List.head?_cons, next_before hb h, ok_bind, shift_or_byte, ih _ htail]
      rfl

theorem takeVint_before (hb : b.length ≤ limit) (h : rest <:+ b) :
    takeVint limit b (before b rest).position =
      (.ok ((Vint.read rest).map fun (v, tail) => (v, (before b tail).position)) :
        Checked ε _) := by
  unfold takeVint
  rw [getElem?_before h]
  cases rest with
  | nil => rfl
  | cons x tail =>
    have htail : tail <:+ b := (List.suffix_cons x tail).trans h
    have hones := (Vint.hasOnes_leadingOnes x).1
    have hshift : Vint.leadingOnes x < 64 := by omega
    simp only [List.head?_cons, next_before hb h, ok_bind, shiftAmount_ok hshift,
      mask_leadingOnes, takeTail_before hb _ _ htail, Vint.read, Option.map_map]
    rfl

theorem suffix_of_readPart {part : String} {i : Int64} {tail : Bytes}
    (h : Duration.readPart part rest = .ok (i, tail)) : tail <:+ rest := by
  unfold Duration.readPart at h
  split at h
  · rename_i v tail' hread
    cases h
    obtain ⟨front, -, rfl⟩ := Vint.denotes_of_read hread
    exact List.suffix_append front _
  · cases h

theorem takePart_bind {α : Type} {part : String} {f : Int64 × Nat → Checked ClientError α}
    {g : Int64 × Bytes → Result α} (hb : b.length ≤ limit) (h : rest <:+ b)
    (hfg : ∀ i tail, tail <:+ b → f (i, (before b tail).position) = lift (g (i, tail))) :
    (takePart limit part b (before b rest).position >>= f) =
      lift (Duration.readPart part rest >>= g) := by
  unfold takePart
  rw [takeVint_before hb h, ok_bind]
  cases hread : Vint.read rest with
  | none => simp [Duration.readPart, hread, lift, fail_bind, error_bind]
  | some p =>
    have hpart : Duration.readPart part rest = .ok (Vint.unzigzag p.1, p.2) := by
      rw [Duration.readPart, hread]
    rw [hpart, ok_bind, ← hfg _ _ ((suffix_of_readPart hpart).trans h)]
    rfl

theorem readDuration_eq_lift (hb : b.length ≤ limit) :
    readDuration limit b = lift (Duration.ofBytes b) := by
  unfold readDuration Duration.ofBytes
  rw [show 0 = (before b b).position from (congrArg Reader.position (before_self b)).symm]
  refine takePart_bind hb (List.suffix_refl b) fun months tail hmonths => ?_
  refine takePart_bind hb hmonths fun days tail hdays => ?_
  refine takePart_bind hb hdays fun nanoseconds tail htail => ?_
  have hle := htail.length_le
  have hend : (before b tail).position = b.length ↔ tail = [] := by
    rw [← List.length_eq_zero_iff]
    simp only [before]
    omega
  dsimp only
  by_cases hnil : tail = []
  · rw [if_neg (not_not_intro (hend.mpr hnil))]
    simp [hnil, lift_bind]
  · rw [if_pos (hend.not.mpr hnil), left_before htail, ok_bind]
    simp [hnil, throw, throwThe, MonadExceptOf.throw, error_bind, lift_error]

/-! ### Each kind -/

/-- Decodes a scalar value. No other kind takes bytes by index or does arithmetic on a position. -/
def decodeScalar (limit : Nat) (kind : ScalarKind) (b : Bytes) : Checked ClientError Value :=
  match kind with
  | .boolean => do
    let b ← lift (Scalar.fixed 1 "boolean" b)
    return .boolean ((← byte b 0) != 0)
  | .date => do
    let b ← lift (Scalar.fixed 4 "date" b)
    let days ← wide ((UInt32.ofNat (Bytes.toNat b)).toNat - Date.wireOffset)
    .date <$> lift (Date.ofEpochDays days)
  | .decimal => .decimal <$> readDecimal b
  | .duration => .duration <$> readDuration limit b
  | kind => lift (Scalar.decode kind b)

theorem decodeScalar_boolean (b : Bytes) :
    decodeScalar limit .boolean b = lift (Scalar.decode .boolean b) := by
  unfold decodeScalar Scalar.decode Scalar.decodeBoolean
  cases hfixed : Scalar.fixed 1 "boolean" b with
  | error e => rfl
  | ok c =>
    obtain ⟨rfl, hlength⟩ := Scalar.of_fixed hfixed
    obtain ⟨x, rfl⟩ := List.length_eq_one_iff.mp hlength
    have hzero : (Bytes.toNat [x] != 0) = (x != 0) := by
      rw [Bool.eq_iff_iff]
      simp [Bytes.toNat, ← UInt8.toNat_inj]
    simp only [ok_bind, hzero]
    rfl

theorem decodeScalar_date (b : Bytes) :
    decodeScalar limit .date b = lift (Scalar.decode .date b) := by
  unfold decodeScalar Scalar.decode Scalar.decodeDate
  cases Scalar.fixed 4 "date" b with
  | error e => rfl
  | ok c =>
    have hraw := (UInt32.ofNat (Bytes.toNat c)).toNat_lt
    simp only [lift_ok, ok_bind]
    rw [wide_ok (by unfold Date.wireOffset; omega) (by unfold Date.wireOffset; omega), ok_bind,
      lift_map, Date.ofWire]

theorem decodeScalar_eq_lift (hb : b.length ≤ limit) (kind : ScalarKind) :
    decodeScalar limit kind b = lift (Scalar.decode kind b) := by
  cases kind with
  | boolean => exact decodeScalar_boolean b
  | date => exact decodeScalar_date b
  | decimal =>
    unfold decodeScalar Scalar.decode
    rw [readDecimal_eq_lift, lift_map]
  | duration =>
    unfold decodeScalar Scalar.decode
    rw [readDuration_eq_lift hb, lift_map]
  | _ => rfl

end

/-! ## Values in place -/

def framed {α : Type} (t : ColumnType) : Checked Malformation α → Checked ClientError α :=
  mapError (.decode t.name)

def decodeItems (typeName : Unit → String) (decodeItem : Option Bytes → Checked ClientError Value)
    (i : Nat) : List (Option Bytes) → Checked ClientError (List Value)
  | [] => .ok []
  | item :: items => do
    let v ← mapError (.element (typeName ()) i) (decodeItem item)
    let vs ← decodeItems typeName decodeItem (i + 1) items
    return v :: vs

/-- Decodes items by pairs, of which `i` came before. -/
def decodeEntries (limit : Nat) (typeName : Unit → String)
    (decodeKey decodeValue : Option Bytes → Checked ClientError Value) (i : Nat) :
    List (Option Bytes) → Checked ClientError (List (Value × Value))
  | key :: value :: items => do
    let position ← upTo limit (2 * i)
    let k ← mapError (.element (typeName ()) position) (decodeKey key)
    let next ← upTo limit (position + 1)
    let v ← mapError (.element (typeName ()) next) (decodeValue value)
    let entries ← decodeEntries limit typeName decodeKey decodeValue (i + 1) items
    return (k, v) :: entries
  | _ => .ok []

def decodeElement (limit : Nat) : ColumnType → Option Bytes → Checked ClientError Value
  | _, none => .ok .null
  | .custom _, some b => .ok (.text (CustomText.clean b))
  | .scalar kind, some b => decodeScalar limit kind b
  | .list element, some b => do
    let items ← framed (.list element) (readCollection limit 1 b)
    let vs ← decodeItems (fun _ => (ColumnType.list element).name) (decodeElement limit element) 0
      items
    return .list vs
  | .set element, some b => do
    let items ← framed (.set element) (readCollection limit 1 b)
    let vs ← decodeItems (fun _ => (ColumnType.set element).name) (decodeElement limit element) 0
      items
    return .setOf vs
  | .map key value, some b => do
    let items ← framed (.map key value) (readCollection limit 2 b)
    let entries ← decodeEntries limit (fun _ => (ColumnType.map key value).name)
      (decodeElement limit key) (decodeElement limit value) 0 items
    return .mapOf entries
  | .udt definition, some b => do
    let components ← framed (.udt definition) (readStructure limit b)
    if definition.fields.length < components.length then
      fail (.decode (ColumnType.udt definition).name
        (.excessFields components.length definition.fields.length))
    else
      return .udt definition components
  | .tuple types, some b => do
    let components ← framed (.tuple types) (readStructure limit b)
    if types.length < components.length then
      fail (.decode (ColumnType.tuple types).name
        (.excessElements components.length types.length))
    else
      return .tuple types components

def decodeValue (limit : Nat) : ColumnType → Option Bytes → Checked ClientError Value
  | .custom _, _ => .ok .null
  | t, raw => decodeElement limit t raw

section

variable {limit : Nat}

theorem mapError_ok {ε ε' α : Type} (wrap : ε → ε') (a : α) :
    mapError wrap (.ok a : Checked ε α) = .ok a := rfl

theorem framed_bind {α β : Type} {t : ColumnType} {x : Except Malformation α}
    {f : α → Checked ClientError β} {g : α → Result β} (hfg : ∀ a, x = .ok a → f a = lift (g a)) :
    (framed t (lift x) >>= f) = lift (WideRow.framed t x >>= g) := by
  cases x with
  | error malformation => rfl
  | ok a => exact hfg a rfl

theorem decodeItems_eq_lift {typeName : Unit → String}
    {f : Option Bytes → Checked ClientError Value} {g : Option Bytes → Result Value}
    {items : List (Option Bytes)} (h : ∀ raw ∈ items, f raw = lift (g raw)) (i : Nat) :
    decodeItems typeName f i items = lift (WideRow.decodeItems typeName g i items) := by
  induction items generalizing i with
  | nil => rfl
  | cons raw items ih =>
    rw [List.forall_mem_cons] at h
    rw [decodeItems, WideRow.decodeItems, h.1, ih h.2]
    cases g raw with
    | error cause => rfl
    | ok v => cases WideRow.decodeItems typeName g (i + 1) items <;> rfl

theorem decodeEntries_eq_lift {typeName : Unit → String}
    {fk fv : Option Bytes → Checked ClientError Value} {gk gv : Option Bytes → Result Value}
    {items : List (Option Bytes)} {i start : Nat} (hstart : 2 * i = start)
    (hcount : start + items.length ≤ limit) (hk : ∀ raw ∈ items, fk raw = lift (gk raw))
    (hv : ∀ raw ∈ items, fv raw = lift (gv raw)) :
    decodeEntries limit typeName fk fv i items =
      lift (WideRow.decodeEntries typeName gk gv start items) := by
  fun_induction WideRow.decodeEntries typeName gk gv start items generalizing i with
  | case1 start key value items cause hkey =>
    simp only [List.length_cons, List.forall_mem_cons] at hcount hk hv
    rw [decodeEntries, hstart, upTo_ok (by omega), ok_bind, hk.1, hkey]
    rfl
  | case2 start key value items k hkey cause hvalue =>
    simp only [List.length_cons, List.forall_mem_cons] at hcount hk hv
    rw [decodeEntries, hstart, upTo_ok (by omega), ok_bind, hk.1, hkey, lift_ok, mapError_ok,
      ok_bind, upTo_ok (by omega), ok_bind, hv.2.1, hvalue]
    rfl
  | case3 start key value items k hkey v hvalue ih =>
    simp only [List.length_cons, List.forall_mem_cons] at hcount hk hv
    rw [decodeEntries, hstart, upTo_ok (by omega), ok_bind, hk.1, hkey, lift_ok, mapError_ok,
      ok_bind, upTo_ok (by omega), ok_bind, hv.2.1, hvalue, lift_ok, mapError_ok, ok_bind,
      ih (by omega) (by omega) hk.2.2 hv.2.2, lift_bind]
    rfl
  | case4 start items hfew =>
    rw [decodeEntries]
    · rfl
    · exact hfew

/-! ### Every type -/

/-- The bytes of an item are no more than there are numbers to count them. -/
def Countable (limit : Nat) (raw : Option Bytes) : Prop :=
  ∀ b, raw = some b → b.length ≤ limit

theorem countable_items {perEntry : Nat} {b : Bytes} {items : List (Option Bytes)}
    (hb : b.length ≤ limit) (h : Framing.readCollection perEntry b = .ok items) :
    items.length ≤ limit ∧ ∀ raw ∈ items, Countable limit raw := by
  have hframes := (of_readCollection h).2
  have hfour := length_frames_ge items
  refine ⟨by omega, ?_⟩
  rintro _ hmem c rfl
  have hpart : (frame (some c)).length ≤ (frames items).length := by
    rw [frames, List.length_flatMap]
    exact List.le_sum_of_mem (List.mem_map_of_mem hmem)
  rw [length_frame] at hpart
  simp at hpart
  omega

theorem decodeElement_eq_lift (hlimit : 2 ^ 32 - 1 ≤ limit) {t : ColumnType} {raw : Option Bytes}
    (hraw : Countable limit raw) :
    decodeElement limit t raw = lift (WideRow.decodeElement t raw) := by
  induction t using ColumnType.element_induction generalizing raw <;> cases raw
  case scalar.none | custom.none | list.none | set.none | map.none | udt.none | tuple.none =>
    rw [decodeElement_none, decodeElement, lift_ok]
  case scalar.some kind b =>
    rw [decodeElement, WideRow.decodeElement, decodeScalar_eq_lift (hraw b rfl)]
  case custom.some className b => rfl
  case list.some element ih b =>
    rw [decodeElement, WideRow.decodeElement, readCollection_eq_lift (by omega) hlimit (hraw b rfl)]
    refine framed_bind fun items hitems => ?_
    obtain ⟨-, heach⟩ := countable_items (hraw b rfl) hitems
    rw [lift_bind, decodeItems_eq_lift fun item hmem => ih (heach item hmem)]
    rfl
  case set.some element ih b =>
    rw [decodeElement, WideRow.decodeElement, readCollection_eq_lift (by omega) hlimit (hraw b rfl)]
    refine framed_bind fun items hitems => ?_
    obtain ⟨-, heach⟩ := countable_items (hraw b rfl) hitems
    rw [lift_bind, decodeItems_eq_lift fun item hmem => ih (heach item hmem)]
    rfl
  case map.some key value ihk ihv b =>
    rw [decodeElement, WideRow.decodeElement, readCollection_eq_lift (by omega) hlimit (hraw b rfl)]
    refine framed_bind fun items hitems => ?_
    obtain ⟨hcount, heach⟩ := countable_items (hraw b rfl) hitems
    rw [lift_bind, decodeEntries_eq_lift rfl (by omega) (fun item hmem => ihk (heach item hmem))
      fun item hmem => ihv (heach item hmem)]
    rfl
  case udt.some definition b =>
    rw [decodeElement, WideRow.decodeElement, readStructure_eq_lift (hraw b rfl)]
    refine framed_bind fun components _ => ?_
    split <;> rfl
  case tuple.some types b =>
    rw [decodeElement, WideRow.decodeElement, readStructure_eq_lift (hraw b rfl)]
    refine framed_bind fun components _ => ?_
    split <;> rfl

/-- Decoding in place gives what decoding gives, so no step of it is out of range. -/
theorem decodeValue_eq_lift (hlimit : 2 ^ 32 - 1 ≤ limit) {t : ColumnType} {raw : Option Bytes}
    (hraw : Countable limit raw) : decodeValue limit t raw = lift (WideRow.decodeValue t raw) := by
  cases t with
  | custom className => rfl
  | _ => exact decodeElement_eq_lift hlimit hraw

end

end InPlace

end WideRow
