import WideRow.Proofs.Display
import WideRow.Row.Cell

/-!
# The text of a cell

The text of a cell is read by the text form of its type, and by the general read where that form
gives nothing. Both ways lead to the text of the value that the general read has.
-/

namespace WideRow

open Result

/-! ## Null and present values -/

theorem ScalarKind.not_holds_null (kind : ScalarKind) : ¬ kind.Holds .null := by
  cases kind <;> exact id

theorem decodeElement_ne_null {t : ColumnType} {b : Bytes} {v : Value}
    (h : decodeElement t (some b) = .ok v) : v ≠ .null := by
  -- Bytes that are there are not decoded to null, whatever their type is.
  refine decodeElement_induction (motive := fun _ raw v => raw ≠ none → v ≠ .null) ?null ?scalar
    ?custom ?list ?set ?map ?udt ?tuple h (Option.some_ne_none b)
  case null =>
    intro t hraw
    exact absurd rfl hraw
  case scalar =>
    rintro kind b v hv - rfl
    exact kind.not_holds_null (Scalar.rewrites_of_decode hv).1
  all_goals
    intros
    exact fun h => nomatch h

theorem decodeValue_eq_null_iff {t : ColumnType} {raw : Option Bytes} :
    decodeValue t raw = .ok .null ↔ raw = none ∨ t.kind = .custom := by
  cases raw with
  | none => cases t <;> exact iff_of_true rfl (.inl rfl)
  | some b =>
    cases t with
    | custom className => exact iff_of_true rfl (.inr rfl)
    | _ => exact iff_of_false (fun h => decodeElement_ne_null h rfl) (by simp [ColumnType.kind])

namespace Cell

/-! ## Text forms of types -/

theorem of_naturalText? {t : ColumnType} {b : Bytes} {s : String} (h : naturalText? t b = some s) :
    ∃ v, decodeValue t (some b) = .ok v ∧ v ≠ .null ∧ v.display = s := by
  cases t with
  | scalar kind =>
    have hdecode : decodeValue (.scalar kind) (some b) = Scalar.decode kind b := rfl
    unfold naturalText? at h
    dsimp only [ColumnType.kind] at h
    split at h
    case isTrue htext =>
      have hs := toOption_eq_some.mp h
      refine ⟨.text s, ?_, nofun, Value.display_text s⟩
      rw [hdecode, Scalar.decode_of_isText htext, hs, map_ok]
    case isFalse =>
      obtain ⟨v, hv, hdisplay⟩ := Option.map_eq_some_iff.mp h
      have hok := toOption_eq_some.mp hv
      exact ⟨v, hok, decodeElement_ne_null hok, hdisplay⟩
  | _ => cases h

/-! ## The two ways -/

/-- The text of what a general read gives: nothing for null, and the same error. -/
def textOf : Result Value → Result (Option String)
  | .ok .null => .ok none
  | .ok v => .ok (some v.display)
  | .error e => .error e

theorem textOf_ok {v : Value} (h : v ≠ .null) : textOf (.ok v) = .ok (some v.display) := by
  cases v <;> first | rfl | exact absurd rfl h

theorem text_eq_textOf_object (c : Cell) : c.text = textOf c.object := by
  obtain ⟨name, type, raw⟩ := c
  cases raw with
  | none =>
    rw [object, decodeValue_eq_null_iff.mpr (.inl rfl)]
    rfl
  | some b =>
    unfold text
    dsimp only
    cases hnatural : naturalText? type b with
    | some s =>
      obtain ⟨v, hv, hnull, rfl⟩ := of_naturalText? hnatural
      rw [object, hv, textOf_ok hnull]
    | none =>
      cases hobject : object ⟨name, type, some b⟩ with
      | error e => rfl
      | ok v => cases v <;> rfl

theorem textOf_eq_ok_none_iff {r : Result Value} : textOf r = .ok none ↔ r = .ok .null := by
  unfold textOf
  split <;> simp_all

theorem textOf_eq_ok_some_iff {r : Result Value} {s : String} :
    textOf r = .ok (some s) ↔ ∃ v, v ≠ .null ∧ r = .ok v ∧ v.display = s := by
  unfold textOf
  split <;> simp_all

theorem textOf_eq_error_iff {r : Result Value} {e : ClientError} :
    textOf r = .error e ↔ r = .error e := by
  unfold textOf
  split <;> simp_all

/-- The text of a cell follows its general read, whatever the type and the bytes are. There is no
text exactly if the value is null, the text is that of the value otherwise, and a read that fails
fails in both ways with the same error. -/
theorem text_follows_object (c : Cell) :
    (c.text = .ok none ↔ c.object = .ok .null) ∧
      (∀ s, c.text = .ok (some s) ↔ ∃ v, v ≠ .null ∧ c.object = .ok v ∧ v.display = s) ∧
      ∀ e, c.text = .error e ↔ c.object = .error e := by
  rw [text_eq_textOf_object]
  exact ⟨textOf_eq_ok_none_iff, fun _ => textOf_eq_ok_some_iff, fun _ => textOf_eq_error_iff⟩

end Cell

end WideRow
