import Mathlib.Data.List.TakeDrop
import Mathlib.Data.List.TakeWhile

/-! # The run at the front of a list -/

namespace WideRow

variable {α : Type} {p : α → Bool} {l r : List α}

theorem takeWhile_run (hl : ∀ x ∈ l, p x = true) (hr : ∀ x ∈ r.head?, p x = false) :
    (l ++ r).takeWhile p = l := by
  rw [List.takeWhile_append_of_pos hl]
  cases r with
  | nil => simp
  | cons x r => simp [hr x rfl]

theorem dropWhile_run (hl : ∀ x ∈ l, p x = true) (hr : ∀ x ∈ r.head?, p x = false) :
    (l ++ r).dropWhile p = r := by
  rw [List.dropWhile_append_of_pos hl]
  cases r with
  | nil => simp
  | cons x r => simp [hr x rfl]

theorem span_run (hl : ∀ x ∈ l, p x = true) (hr : ∀ x ∈ r.head?, p x = false) :
    (l ++ r).span p = (l, r) := by
  rw [List.span_eq_takeWhile_dropWhile, takeWhile_run hl hr, dropWhile_run hl hr]

theorem head_dropWhile (l : List α) : ∀ x ∈ (l.dropWhile p).head?, p x = false := by
  intro x hx
  have := List.head?_dropWhile_not (p := p) l
  rw [hx] at this
  simpa using this

theorem span_eq_iff {a b : List α} :
    l.span p = (a, b) ↔
      (∀ x ∈ a, p x = true) ∧ (∀ x ∈ b.head?, p x = false) ∧ l = a ++ b := by
  constructor
  · intro h
    rw [List.span_eq_takeWhile_dropWhile, Prod.mk.injEq] at h
    obtain ⟨rfl, rfl⟩ := h
    exact ⟨fun x hx => List.mem_takeWhile_imp hx, head_dropWhile l,
      List.takeWhile_append_dropWhile.symm⟩
  · rintro ⟨ha, hb, rfl⟩
    exact span_run ha hb

end WideRow
