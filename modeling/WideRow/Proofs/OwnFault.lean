import WideRow.Proofs.Result
import WideRow.Wire.Decode

/-!
# Faults of single values

Whatever is wrong with the bytes of a scalar or a structure, the error says so itself. Only the
error of a collection carries another one.
-/

namespace WideRow

open Result

/-- Whatever error there is says itself what is malformed, and carries no other one. -/
def FailsItself {α : Type} (x : Result α) : Prop :=
  ∀ e, x = .error e → ∃ typeName malformation, e = .decode typeName malformation

namespace FailsItself

variable {α β : Type}

theorem ok (a : α) : FailsItself (.ok a) := by
  rintro e ⟨⟩

theorem decode (typeName : String) (malformation : Malformation) :
    FailsItself (.error (.decode typeName malformation) : Result α) := by
  rintro e ⟨⟩
  exact ⟨typeName, malformation, rfl⟩

theorem bind {x : Result α} {f : α → Result β} (hx : FailsItself x)
    (hf : ∀ a, FailsItself (f a)) : FailsItself (x >>= f) := by
  intro e h
  rcases bind_eq_error.mp h with h | ⟨a, -, h⟩
  · exact hx e h
  · exact hf a e h

theorem map {x : Result α} (hx : FailsItself x) (f : α → β) : FailsItself (f <$> x) := by
  intro e h
  exact hx e (map_eq_error.mp h)

end FailsItself

namespace Duration

theorem readPart_failsItself (part : String) (b : Bytes) : FailsItself (readPart part b) := by
  unfold readPart
  split
  · exact .ok _
  · exact .decode _ _

theorem narrowPart_failsItself (part : String) (i : Int64) :
    FailsItself (narrowPart part i) := by
  unfold narrowPart
  split
  · exact .ok _
  · exact .decode _ _

theorem ofParts_failsItself (months days : Int32) (nanoseconds : Int64) :
    FailsItself (ofParts months days nanoseconds) := by
  unfold ofParts
  split
  · exact .ok _
  · exact .decode _ _

theorem ofBytes_failsItself (b : Bytes) : FailsItself (ofBytes b) := by
  unfold ofBytes
  refine (readPart_failsItself _ _).bind fun months => ?_
  refine (readPart_failsItself _ _).bind fun days => ?_
  refine (readPart_failsItself _ _).bind fun nanoseconds => ?_
  dsimp only
  split
  · exact .decode _ _
  · refine (narrowPart_failsItself _ _).bind fun months => ?_
    refine (narrowPart_failsItself _ _).bind fun days => ?_
    exact ofParts_failsItself _ _ _

end Duration

namespace Scalar

theorem fixed_failsItself (width : Nat) (typeName : String) (b : Bytes) :
    FailsItself (fixed width typeName b) := by
  unfold fixed
  split
  · exact .ok _
  · exact .decode _ _

theorem decodeText_failsItself (kind : ScalarKind) (b : Bytes) :
    FailsItself (decodeText kind b) := by
  unfold decodeText
  split
  · exact .decode _ _
  · split
    · exact .ok _
    · exact .decode _ _

theorem decode_failsItself (kind : ScalarKind) (b : Bytes) : FailsItself (decode kind b) := by
  have wide {α : Type} {width : Nat} {typeName : String} (f : Bytes → Result α)
      (hf : ∀ b, FailsItself (f b)) : FailsItself (fixed width typeName b >>= f) :=
    (fixed_failsItself width typeName b).bind hf
  cases kind with
  | ascii | text | varchar => exact (decodeText_failsItself _ b).map _
  | blob => exact .ok _
  | decimal =>
    refine .map ?_ _
    unfold Decimal.ofBytes
    split
    · exact .decode _ _
    · exact .ok _
  | varint =>
    refine .map ?_ _
    unfold decodeVarint
    split
    · exact .decode _ _
    · exact .ok _
  | inet =>
    refine .map ?_ _
    unfold decodeInet
    split
    · exact .ok _
    split
    · exact .ok _
    · exact .decode _ _
  | date =>
    refine .map (wide _ fun b => ?_) _
    unfold Date.ofWire Date.ofEpochDays
    split
    · exact .ok _
    · exact .decode _ _
  | time =>
    refine .map (.bind (wide _ fun b => .ok _) fun nanos => ?_) _
    unfold TimeOfDay.ofNanos
    split
    · exact .ok _
    · exact .decode _ _
  | timestamp => exact .map (.bind (wide _ fun b => .ok _) fun millis => .ok _) _
  | duration => exact .map (Duration.ofBytes_failsItself b) _
  -- Every other kind has one width, and any bytes of it.
  | _ => exact .map (wide _ fun b => .ok _) _

end Scalar

theorem framed_failsItself {α : Type} (t : ColumnType) (x : Except Malformation α) :
    FailsItself (framed t x) := by
  cases x with
  | ok a => exact .ok a
  | error malformation => exact .decode _ _

theorem decodeElement_udt_failsItself (definition : UdtType) (b : Bytes) :
    FailsItself (decodeElement (.udt definition) (some b)) := by
  rw [decodeElement]
  refine (framed_failsItself _ _).bind fun components => ?_
  dsimp only
  split
  · exact .decode _ _
  · exact .ok _

theorem decodeElement_tuple_failsItself (types : List ColumnType) (b : Bytes) :
    FailsItself (decodeElement (.tuple types) (some b)) := by
  rw [decodeElement]
  refine (framed_failsItself _ _).bind fun components => ?_
  dsimp only
  split
  · exact .decode _ _
  · exact .ok _

end WideRow
