import Mathlib.Algebra.Ring.Nat
import Mathlib.Data.List.Induction
import WideRow.Value.Collection

/-! # Sets and maps built from their own items -/

namespace WideRow

/-! ## Sets -/

namespace ValueSet

variable {digest : Digest}

theorem ofList_append_one (vs : List Value) (v : Value) :
    ofList digest (vs ++ [v]) = ((ofList digest vs).insert digest v).2 := by
  unfold ofList
  rw [List.foldl_append, List.foldl_cons, List.foldl_nil]

theorem insert_present {s : ValueSet} {v : Value} (h : s.contains digest v = true) :
    (s.insert digest v).2 = s := by
  unfold insert
  rw [if_pos h]

theorem toList_insert_absent {s : ValueSet} {v : Value} (h : ¬ s.contains digest v = true) :
    (s.insert digest v).2.toList = s.toList ++ [v] := by
  unfold insert
  rw [if_neg h]
  simp [toList]

theorem ofList_toList (vs : List Value) : ofList digest (ofList digest vs).toList = ofList digest vs := by
  induction vs using List.reverseRecOn with
  | nil => rfl
  | append_singleton vs v ih =>
    rw [ofList_append_one]
    by_cases h : (ofList digest vs).contains digest v = true
    · rw [insert_present h, ih]
    · rw [toList_insert_absent h, ofList_append_one, ih]

theorem mem_of_mem_ofList {vs : List Value} {v : Value} (h : v ∈ (ofList digest vs).toList) :
    v ∈ vs := by
  induction vs using List.reverseRecOn with
  | nil => exact h
  | append_singleton vs w ih =>
    rw [ofList_append_one] at h
    rw [List.mem_append]
    by_cases hc : (ofList digest vs).contains digest w = true
    · rw [insert_present hc] at h
      exact .inl (ih h)
    · rw [toList_insert_absent hc, List.mem_append] at h
      exact h.imp_left ih

theorem sum_ofList_le (weight : Value → Nat) (vs : List Value) :
    ((ofList digest vs).toList.map weight).sum ≤ (vs.map weight).sum := by
  induction vs using List.reverseRecOn with
  | nil => exact Nat.le_refl _
  | append_singleton vs v ih =>
    rw [ofList_append_one, List.map_append, List.sum_append]
    by_cases h : (ofList digest vs).contains digest v = true
    · rw [insert_present h]
      omega
    · rw [toList_insert_absent h, List.map_append, List.sum_append]
      omega

end ValueSet

/-! ## Maps -/

namespace ValueMap

variable {digest : Digest}

theorem ofList_append_one (entries : List (Value × Value)) (k v : Value) :
    ofList digest (entries ++ [(k, v)]) = ((ofList digest entries).insert digest k v).2 := by
  unfold ofList
  rw [List.foldl_append, List.foldl_cons, List.foldl_nil]

theorem insert_present {m : ValueMap} {k : Value} {i : Nat} (h : m.position? digest k = some i)
    (v : Value) :
    (m.insert digest k v).2 = ⟨m.entries.modify i fun entry => (entry.1, v), m.index⟩ := by
  unfold insert
  rw [h]

theorem insert_absent {m : ValueMap} {k : Value} (h : m.position? digest k = none) (v : Value) :
    (m.insert digest k v).2 = ⟨m.entries.push (k, v), m.index.push (digest k.describe) m.size⟩ := by
  unfold insert
  rw [h, size]

theorem position?_congr {m n : ValueMap} (hkeys : m.keys = n.keys) (hindex : m.index = n.index)
    (k : Value) : m.position? digest k = n.position? digest k := by
  unfold position?
  rw [hindex]
  congr 1
  funext i
  have hi : m.entries[i]?.map (·.1) = n.entries[i]?.map (·.1) := by
    have := congrArg (·[i]?) hkeys
    simpa [keys, toList] using this
  cases hm : m.entries[i]? <;> cases hn : n.entries[i]? <;> simp_all

theorem map_fst_modify (l : List (Value × Value)) (i : Nat) (v : Value) :
    (l.modify i fun entry => (entry.1, v)).map (·.1) = l.map (·.1) := by
  induction l generalizing i with
  | nil => cases i <;> rfl
  | cons e l ih =>
    cases i with
    | zero => rfl
    | succ i => rw [List.modify_succ_cons, List.map_cons, List.map_cons, ih]

theorem ofList_of_keys {entries rows : List (Value × Value)}
    (h : rows.map (·.1) = (ofList digest entries).keys) :
    ofList digest rows = ⟨rows.toArray, (ofList digest entries).index⟩ := by
  induction entries using List.reverseRecOn generalizing rows with
  | nil =>
    have : rows = [] := List.map_eq_nil_iff.mp h
    rw [this]
    rfl
  | append_singleton entries entry ih =>
    obtain ⟨k, v⟩ := entry
    rw [ofList_append_one] at h ⊢
    cases hp : (ofList digest entries).position? digest k with
    | some i =>
      -- A value was replaced, which neither the keys nor the index show.
      rw [insert_present hp] at h ⊢
      refine ih (h.trans ?_)
      simp only [keys, toList, Array.toList_modify, map_fst_modify]
    | none =>
      rw [insert_absent hp] at h ⊢
      simp only [keys, toList, Array.toList_push, List.map_append, List.map_cons, List.map_nil] at h
      obtain ⟨front, last, rfl, hfront, hlast⟩ := List.map_eq_append_iff.mp h
      obtain ⟨⟨key, w⟩, rfl, hk⟩ := List.map_eq_singleton_iff.mp hlast
      change key = k at hk
      subst key
      have hm := ih hfront
      -- The new key is as absent among the rows in front as it was among the entries.
      have hnone : (ofList digest front).position? digest k = none := by
        rw [← hp]
        exact position?_congr (by rw [hm]; exact hfront) (by rw [hm]) k
      have hlen : front.length = (ofList digest entries).size := by
        have := congrArg List.length hfront
        simpa [size] using this
      rw [ofList_append_one, insert_absent hnone, hm]
      simp [size, hlen]

theorem ofList_toList (entries : List (Value × Value)) :
    ofList digest (ofList digest entries).toList = ofList digest entries := by
  exact ofList_of_keys rfl

theorem forall_modify {P : Value × Value → Prop} {f : Value × Value → Value × Value}
    (hf : ∀ e, P e → P (f e)) {l : List (Value × Value)} (h : ∀ e ∈ l, P e) (i : Nat) :
    ∀ e ∈ l.modify i f, P e := by
  induction l generalizing i with
  | nil =>
    intro e he
    cases i <;> cases he
  | cons e l ih =>
    rw [List.forall_mem_cons] at h
    cases i with
    | zero => exact List.forall_mem_cons.mpr ⟨hf e h.1, h.2⟩
    | succ i => exact List.forall_mem_cons.mpr ⟨h.1, ih h.2 i⟩

theorem forall_ofList {P Q : Value → Prop} {entries : List (Value × Value)}
    (h : ∀ e ∈ entries, P e.1 ∧ Q e.2) : ∀ e ∈ (ofList digest entries).toList, P e.1 ∧ Q e.2 := by
  induction entries using List.reverseRecOn with
  | nil => exact h
  | append_singleton entries entry ih =>
    obtain ⟨k, v⟩ := entry
    rw [List.forall_mem_append] at h
    have hkv := h.2 (k, v) List.mem_cons_self
    rw [ofList_append_one]
    cases hp : (ofList digest entries).position? digest k with
    | some i =>
      rw [insert_present hp]
      simp only [toList, Array.toList_modify]
      exact forall_modify (fun e he => ⟨he.1, hkv.2⟩) (ih h.1) i
    | none =>
      rw [insert_absent hp]
      simp only [toList, Array.toList_push, List.forall_mem_append]
      exact ⟨ih h.1, h.2⟩

theorem sum_modify_le (weight weight' : Value → Nat) (v : Value) (l : List (Value × Value)) (i : Nat) :
    ((l.modify i fun entry => (entry.1, v)).map fun e => weight e.1 + weight' e.2).sum ≤
      (l.map fun e => weight e.1 + weight' e.2).sum + weight' v := by
  induction l generalizing i with
  | nil => cases i <;> exact Nat.zero_le _
  | cons e l ih =>
    cases i with
    | zero =>
      simp only [List.modify_zero_cons, List.map_cons, List.sum_cons]
      omega
    | succ i =>
      have := ih i
      simp only [List.modify_succ_cons, List.map_cons, List.sum_cons]
      omega

theorem sum_ofList_le (weight weight' : Value → Nat) (entries : List (Value × Value)) :
    ((ofList digest entries).toList.map fun e => weight e.1 + weight' e.2).sum ≤
      (entries.map fun e => weight e.1 + weight' e.2).sum := by
  induction entries using List.reverseRecOn with
  | nil => exact Nat.le_refl _
  | append_singleton entries entry ih =>
    obtain ⟨k, v⟩ := entry
    rw [ofList_append_one, List.map_append, List.sum_append]
    cases hp : (ofList digest entries).position? digest k with
    | some i =>
      rw [insert_present hp]
      have := sum_modify_le weight weight' v (ofList digest entries).toList i
      simp only [toList, Array.toList_modify, List.map_cons, List.map_nil, List.sum_cons,
        List.sum_nil] at this ih ⊢
      omega
    | none =>
      rw [insert_absent hp]
      simp only [toList, Array.toList_push, List.map_append, List.map_cons, List.map_nil,
        List.sum_append] at ih ⊢
      omega

end ValueMap

end WideRow
