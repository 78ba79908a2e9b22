import WideRow.Value.Digest

/-!
# Equal values

Equality of values is symmetric, though what is no number differs from itself, and values that are
equal are described alike.
-/

namespace WideRow

/-! ## Numbers -/

namespace BinaryClass

/-- Numeric equality of values of two classes, given whether their bits agree. -/
def agrees : BinaryClass → BinaryClass → Bool → Bool
  | .notANumber, _, _ | _, .notANumber, _ => false
  | .finite _ 0 _, .finite _ 0 _, _ => true
  | _, _, sameBits => sameBits

theorem agrees_comm (c d : BinaryClass) (sameBits : Bool) :
    c.agrees d sameBits = d.agrees c sameBits := by
  cases c with
  | notANumber => cases d <;> rfl
  | infinite => cases d <;> rfl
  | finite _ s _ =>
    cases d with
    | notANumber | infinite => rfl
    | finite _ t _ => cases s <;> cases t <;> rfl

theorem of_agrees {c d : BinaryClass} {sameBits : Bool} (h : c.agrees d sameBits = true) :
    (∃ m n i j, c = .finite m 0 i ∧ d = .finite n 0 j) ∨ sameBits = true := by
  unfold agrees at h
  split at h
  · cases h
  · cases h
  · exact .inl ⟨_, _, _, _, rfl, rfl⟩
  · exact .inr h

end BinaryClass

namespace Binary64

theorem sameNumber_eq (x y : Binary64) :
    x.sameNumber y = x.classify.agrees y.classify (x.bits == y.bits) := by
  unfold sameNumber BinaryClass.agrees
  split <;> simp_all

theorem sameNumber_comm (x y : Binary64) : x.sameNumber y = y.sameNumber x := by
  rw [sameNumber_eq, sameNumber_eq, BinaryClass.agrees_comm, BEq.comm]

theorem bitsOfNumber_zero {x : Binary64} {negative : Bool} {exponent : Int}
    (h : x.classify = .finite negative 0 exponent) : x.bitsOfNumber = 0 := by
  unfold bitsOfNumber
  simp only [h]

theorem bitsOfNumber_of_same {x y : Binary64} (h : x.sameNumber y = true) :
    x.bitsOfNumber = y.bitsOfNumber := by
  rw [sameNumber_eq] at h
  rcases BinaryClass.of_agrees h with ⟨_, _, _, _, hx, hy⟩ | hbits
  · rw [bitsOfNumber_zero hx, bitsOfNumber_zero hy]
  · have hxy : x = y := by
      cases x
      cases y
      exact congrArg mk (eq_of_beq hbits)
    rw [hxy]

theorem nearest_zero (negative : Bool) (denominator : Nat) :
    nearest negative 0 denominator =
      ⟨UInt64.ofNat (if negative then BinaryFormat.double.signBit else 0)⟩ := by
  unfold nearest BinaryFormat.nearest
  simp only [beq_self_eq_true, if_true]

end Binary64

namespace Binary32

theorem sameNumber_eq (x y : Binary32) :
    x.sameNumber y = x.classify.agrees y.classify (x.bits == y.bits) := by
  unfold sameNumber BinaryClass.agrees
  split <;> simp_all

theorem sameNumber_comm (x y : Binary32) : x.sameNumber y = y.sameNumber x := by
  rw [sameNumber_eq, sameNumber_eq, BinaryClass.agrees_comm, BEq.comm]

theorem bitsOfNumber_zero {x : Binary32} {negative : Bool} {exponent : Int}
    (h : x.classify = .finite negative 0 exponent) :
    (Binary64.ofBinary32 x).bitsOfNumber = 0 := by
  have hwide : Binary64.ofBinary32 x =
      ⟨UInt64.ofNat (if negative then BinaryFormat.double.signBit else 0)⟩ := by
    unfold Binary64.ofBinary32
    simp only [h, Nat.zero_mul, Binary64.nearest_zero, ite_self]
  rw [hwide]
  cases negative <;> decide

theorem bitsOfNumber_of_same {x y : Binary32} (h : x.sameNumber y = true) :
    (Binary64.ofBinary32 x).bitsOfNumber = (Binary64.ofBinary32 y).bitsOfNumber := by
  rw [sameNumber_eq] at h
  rcases BinaryClass.of_agrees h with ⟨_, _, _, _, hx, hy⟩ | hbits
  · rw [bitsOfNumber_zero hx, bitsOfNumber_zero hy]
  · have hxy : x = y := by
      cases x
      cases y
      exact congrArg mk (eq_of_beq hbits)
    rw [hxy]

end Binary32

/-! ## Values -/

namespace Value

mutual

theorem same_comm : ∀ v w : Value, v.same w = w.same v
  | .null, w => by cases w <;> rfl
  | .boolean _, w | .tinyint _, w | .smallint _, w | .int _, w | .bigint _, w | .decimal _, w
  | .varint _, w | .text _, w | .blob _, w | .uuid _, w | .inet _, w | .date _, w | .time _, w
  | .timestamp _, w | .duration _, w => by cases w <;> first | rfl | exact BEq.comm
  | .float a, w => by
    cases w with
    | float b => exact a.sameNumber_comm b
    | _ => rfl
  | .double a, w => by
    cases w with
    | double b => exact a.sameNumber_comm b
    | _ => rfl
  | .list a, w => by
    cases w with
    | list b => exact sameItems_comm a b
    | _ => rfl
  | .set a, w => by
    cases w with
    | set b => exact sameItems_comm a b
    | _ => rfl
  | .map a, w => by
    cases w with
    | map b => exact sameEntries_comm a b
    | _ => rfl
  | .udt d a, w => by
    cases w with
    | udt e b => rw [same, same, BEq.comm (a := d), BEq.comm (a := a)]
    | _ => rfl
  | .tuple t a, w => by
    cases w with
    | tuple u b => rw [same, same, BEq.comm (a := t), BEq.comm (a := a)]
    | _ => rfl

theorem sameItems_comm : ∀ a b : List Value, sameItems a b = sameItems b a
  | [], [] | [], _ :: _ | _ :: _, [] => rfl
  | x :: xs, y :: ys => by rw [sameItems, sameItems, same_comm x y, sameItems_comm xs ys]

theorem sameEntries_comm : ∀ a b : List (Value × Value), sameEntries a b = sameEntries b a
  | [], [] | [], _ :: _ | _ :: _, [] => rfl
  | (k, v) :: xs, (l, w) :: ys => by
    rw [sameEntries, sameEntries, same_comm k l, same_comm v w, sameEntries_comm xs ys]

end

mutual

/-- Equal values are described alike, so they are looked for in one bucket. -/
theorem describe_of_same : ∀ {v w : Value}, v.same w = true → v.describe = w.describe
  | .null, w, h => by
    cases w with
    | null => rfl
    | _ => cases h
  | .boolean _, w, h | .tinyint _, w, h | .smallint _, w, h | .int _, w, h | .bigint _, w, h
  | .decimal _, w, h | .varint _, w, h | .text _, w, h | .blob _, w, h | .uuid _, w, h
  | .inet _, w, h | .date _, w, h | .time _, w, h | .timestamp _, w, h | .duration _, w, h => by
    cases w <;> first | cases h | rw [eq_of_beq h]
  | .float _, w, h => by
    cases w with
    | float => rw [describe, describe, Binary32.bitsOfNumber_of_same h]
    | _ => cases h
  | .double _, w, h => by
    cases w with
    | double => rw [describe, describe, Binary64.bitsOfNumber_of_same h]
    | _ => cases h
  | .list _, w, h => by
    cases w with
    | list =>
      obtain ⟨hlength, hitems⟩ := describeItems_of_same h
      rw [describe, describe, hlength, hitems]
    | _ => cases h
  | .set _, w, h => by
    cases w with
    | set =>
      obtain ⟨hlength, hitems⟩ := describeItems_of_same h
      rw [describe, describe, hlength, hitems]
    | _ => cases h
  | .map _, w, h => by
    cases w with
    | map =>
      obtain ⟨hlength, hentries⟩ := describeEntries_of_same h
      rw [describe, describe, hlength, hentries]
    | _ => cases h
  -- A structure is described by its components alone, which equal ones share.
  | .udt _ _, w, h => by
    cases w with
    | udt =>
      rw [same, Bool.and_eq_true] at h
      rw [describe, describe, eq_of_beq h.2]
    | _ => cases h
  | .tuple _ _, w, h => by
    cases w with
    | tuple =>
      rw [same, Bool.and_eq_true] at h
      rw [describe, describe, eq_of_beq h.2]
    | _ => cases h

theorem describeItems_of_same : ∀ {a b : List Value}, sameItems a b = true →
    a.length = b.length ∧ describeItems a = describeItems b
  | [], [], _ => ⟨rfl, rfl⟩
  | x :: xs, y :: ys, h => by
    rw [sameItems, Bool.and_eq_true] at h
    obtain ⟨hlength, hitems⟩ := describeItems_of_same h.2
    refine ⟨congrArg (· + 1) hlength, ?_⟩
    rw [describeItems, describeItems, describe_of_same h.1, hitems]

theorem describeEntries_of_same : ∀ {a b : List (Value × Value)}, sameEntries a b = true →
    a.length = b.length ∧ describeEntries a = describeEntries b
  | [], [], _ => ⟨rfl, rfl⟩
  | (k, v) :: xs, (l, w) :: ys, h => by
    rw [sameEntries, Bool.and_eq_true, Bool.and_eq_true] at h
    obtain ⟨hlength, hentries⟩ := describeEntries_of_same h.2
    refine ⟨congrArg (· + 1) hlength, ?_⟩
    rw [describeEntries, describeEntries, describe_of_same h.1.1, describe_of_same h.1.2, hentries]

end

end Value

end WideRow
