import Mathlib.Data.List.Nodup

/-! # Entries by key -/

namespace WideRow

section

variable {κ α : Type} [BEq κ] [LawfulBEq κ] {l : List (κ × α)} {id : κ}

theorem lookup_cons_self (a : α) : ((id, a) :: l).lookup id = some a := by
  rw [List.lookup_cons, beq_self_eq_true]

theorem lookup_cons_other {i : κ} (h : id ≠ i) (a : α) :
    ((i, a) :: l).lookup id = l.lookup id := by
  rw [List.lookup_cons, beq_eq_false_iff_ne.mpr h]

theorem lookup_filter (keep : κ → Bool) :
    (l.filter fun entry => keep entry.1).lookup id = if keep id then l.lookup id else none := by
  induction l with
  | nil => simp
  | cons entry l ih =>
    obtain ⟨i, a⟩ := entry
    rw [List.filter_cons]
    by_cases hi : id = i
    · subst hi
      by_cases hk : keep id = true
      · simp only [hk, if_true, lookup_cons_self]
      · simp only [hk, Bool.false_eq_true, if_false, ih]
    · rw [lookup_cons_other hi]
      by_cases hk : keep i = true
      · simp only [hk, if_true, lookup_cons_other hi, ih]
      · simp only [hk, Bool.false_eq_true, if_false, ih]

theorem find?_eq_lookup : (l.find? (·.1 == id)).map (·.2) = l.lookup id := by
  induction l with
  | nil => rfl
  | cons entry l ih =>
    obtain ⟨i, a⟩ := entry
    by_cases hi : id = i
    · subst hi
      rw [lookup_cons_self, List.find?_cons_of_pos (by simp), Option.map_some]
    · rw [lookup_cons_other hi, List.find?_cons_of_neg (by simpa using Ne.symm hi), ih]

theorem lookup_map_value {β : Type} (f : κ → α → β) :
    (l.map fun entry => (entry.1, f entry.1 entry.2)).lookup id = (l.lookup id).map (f id) := by
  induction l with
  | nil => rfl
  | cons entry l ih =>
    obtain ⟨i, a⟩ := entry
    rw [List.map_cons]
    by_cases hi : id = i
    · subst hi
      rw [lookup_cons_self, lookup_cons_self, Option.map_some]
    · rw [lookup_cons_other hi, lookup_cons_other hi, ih]

theorem mem_of_lookup {a : α} (h : l.lookup id = some a) : (id, a) ∈ l := by
  induction l with
  | nil => cases h
  | cons entry l ih =>
    obtain ⟨i, x⟩ := entry
    by_cases hi : id = i
    · subst hi
      rw [lookup_cons_self] at h
      cases h
      exact List.mem_cons_self
    · rw [lookup_cons_other hi] at h
      exact List.mem_cons_of_mem _ (ih h)

theorem lookup_of_mem (hn : (l.map Prod.fst).Nodup) {a : α} (h : (id, a) ∈ l) :
    l.lookup id = some a := by
  induction l with
  | nil => cases h
  | cons entry l ih =>
    obtain ⟨i, x⟩ := entry
    rw [List.map_cons, List.nodup_cons] at hn
    rcases List.mem_cons.mp h with heq | hmem
    · cases heq
      exact lookup_cons_self a
    · have hne : id ≠ i := by
        intro heq
        exact hn.1 (List.mem_map.mpr ⟨(id, a), hmem, heq⟩)
      rw [lookup_cons_other hne, ih hn.2 hmem]

theorem lookup_replace_self {a x : α} (h : l.lookup id = some x) :
    (l.map fun entry => if entry.1 == id then (id, a) else entry).lookup id = some a := by
  induction l with
  | nil => cases h
  | cons entry l ih =>
    obtain ⟨i, y⟩ := entry
    rw [List.map_cons]
    by_cases hi : id = i
    · subst hi
      simp only [beq_self_eq_true, if_true, lookup_cons_self]
    · rw [lookup_cons_other hi] at h
      rw [if_neg (by simpa using Ne.symm hi), lookup_cons_other hi, ih h]

theorem lookup_replace_other (a : α) {j : κ} (h : j ≠ id) :
    (l.map fun entry => if entry.1 == id then (id, a) else entry).lookup j = l.lookup j := by
  induction l with
  | nil => rfl
  | cons entry l ih =>
    obtain ⟨i, y⟩ := entry
    rw [List.map_cons]
    by_cases hi : i = id
    · subst hi
      rw [if_pos (beq_self_eq_true i), lookup_cons_other h, lookup_cons_other h, ih]
    · rw [if_neg (by simpa using hi)]
      by_cases hj : j = i
      · subst hj
        rw [lookup_cons_self, lookup_cons_self]
      · rw [lookup_cons_other hj, lookup_cons_other hj, ih]

theorem keys_replace (a : α) :
    (l.map fun entry => if entry.1 == id then (id, a) else entry).map Prod.fst = l.map Prod.fst := by
  rw [List.map_map]
  refine List.map_congr_left ?_
  intro entry _
  by_cases h : entry.1 = id
  · simp [h]
  · simp [h]

theorem replace_same (hn : (l.map Prod.fst).Nodup) {a : α} (h : l.lookup id = some a) :
    (l.map fun entry => if entry.1 == id then (id, a) else entry) = l := by
  conv_rhs => rw [← List.map_id l]
  refine List.map_congr_left ?_
  rintro ⟨i, x⟩ hmem
  by_cases hi : i = id
  · subst hi
    rw [lookup_of_mem hn hmem] at h
    cases h
    simp
  · simp [hi]

end

end WideRow
