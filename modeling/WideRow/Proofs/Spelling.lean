import Mathlib.Data.List.Induction
import WideRow.Config.Params
import WideRow.Proofs.Entries

/-!
# Spellings of parameters

Of a list of entries, parameters keep for each key the value that was spelled last, in whatever case
and between whatever blanks the key was written.
-/

namespace WideRow.Params

/-! ## Entries in order -/

theorem nodup_of_sorted {l : List (String × String)} (h : l.Pairwise fun a b => a.1 < b.1) :
    (l.map Prod.fst).Nodup := by
  rw [List.nodup_iff_pairwise_ne, List.pairwise_map]
  exact h.imp fun hlt => String.ne_of_lt hlt

theorem eq_of_lookup {l m : List (String × String)} (hl : l.Pairwise fun a b => a.1 < b.1)
    (hm : m.Pairwise fun a b => a.1 < b.1) (h : ∀ key, l.lookup key = m.lookup key) : l = m := by
  have hnl := nodup_of_sorted hl
  have hnm := nodup_of_sorted hm
  have hperm : l.Perm m := by
    rw [List.perm_ext_iff_of_nodup hnl.of_map hnm.of_map]
    rintro ⟨key, value⟩
    constructor
    · intro hmem
      exact mem_of_lookup ((h key).symm.trans (lookup_of_mem hnl hmem))
    · intro hmem
      exact mem_of_lookup ((h key).trans (lookup_of_mem hnm hmem))
  exact hperm.eq_of_pairwise (fun a b _ _ hab hba => absurd hba (String.lt_asymm hab)) hl hm

theorem eq_of_find {p q : Params} (h : ∀ key, p.entries.lookup key = q.entries.lookup key) :
    p = q := by
  obtain ⟨l, hl⟩ := p
  obtain ⟨m, hm⟩ := q
  cases eq_of_lookup hl hm h
  rfl

theorem lookup_putEntry (key value : String) (entries : List (String × String)) (k : String) :
    (putEntry key value entries).lookup k = if k = key then some value else entries.lookup k := by
  induction entries with
  | nil =>
    by_cases hk : k = key
    · rw [if_pos hk, hk, putEntry, lookup_cons_self]
    · rw [if_neg hk, putEntry, lookup_cons_other hk]
  | cons entry rest ih =>
    rw [putEntry]
    by_cases hk : k = key
    · subst hk
      rw [if_pos rfl] at ih ⊢
      split
      · exact lookup_cons_self _
      · split
        · exact lookup_cons_self _
        · rename_i hne
          rw [lookup_cons_other hne, ih]
    · rw [if_neg hk] at ih ⊢
      split
      · exact lookup_cons_other hk _
      · split
        · rename_i heq
          rw [lookup_cons_other hk, lookup_cons_other (heq ▸ hk)]
        · rw [List.lookup_cons, List.lookup_cons, ih]

/-! ## What was spelled last -/

/-- The value of the last entry that spells the key. Blanks alone spell none. -/
def setting (entries : List (String × String)) (key : String) : Option String :=
  if key = "" then none
  else ((entries.filter fun entry => normalizeKey entry.1 = key).getLast?).map Prod.snd

theorem setting_append (entries more : List (String × String)) (key : String) :
    setting (entries ++ more) key = (setting more key).or (setting entries key) := by
  unfold setting
  split
  · rfl
  · rw [List.filter_append, List.getLast?_append]
    cases (more.filter fun entry => normalizeKey entry.1 = key).getLast? <;> simp

theorem lookup_insert (p : Params) (key value k : String) :
    (p.insert key value).entries.lookup k =
      (setting [(key, value)] k).or (p.entries.lookup k) := by
  unfold insert setting
  by_cases hblank : normalizeKey key = ""
  · rw [if_pos hblank]
    split
    · rfl
    · rename_i hk
      simp [hblank, Ne.symm hk]
  · rw [if_neg hblank, lookup_putEntry]
    by_cases hk : k = normalizeKey key
    · simp [hk, hblank]
    · simp [hk, Ne.symm hk]

theorem ofList_append_one (entries : List (String × String)) (entry : String × String) :
    ofList (entries ++ [entry]) = (ofList entries).insert entry.1 entry.2 := by
  unfold ofList
  rw [List.foldl_append, List.foldl_cons, List.foldl_nil]

theorem lookup_ofList (entries : List (String × String)) (key : String) :
    (ofList entries).entries.lookup key = setting entries key := by
  induction entries using List.reverseRecOn with
  | nil => simp [ofList, empty, setting]
  | append_singleton entries entry ih => rw [ofList_append_one, lookup_insert, setting_append, ih]

/-- Entries make the same parameters exactly if they spell the same values last. -/
theorem ofList_eq_iff {entries entries' : List (String × String)} :
    ofList entries = ofList entries' ↔ ∀ key, setting entries key = setting entries' key := by
  constructor
  · intro h key
    rw [← lookup_ofList, h, lookup_ofList]
  · intro h
    apply eq_of_find
    intro key
    rw [lookup_ofList, lookup_ofList, h]

/-! ## Overrides -/

theorem lookup_foldl_put (p : Params) (entries : List (String × String)) (key : String) :
    (entries.foldl put p).entries.lookup key =
      (entries.reverse.lookup key).or (p.entries.lookup key) := by
  induction entries using List.reverseRecOn with
  | nil => rfl
  | append_singleton entries entry ih =>
    rw [List.foldl_append, List.foldl_cons, List.foldl_nil, put, lookup_putEntry, ih,
      List.reverse_append, List.reverse_singleton, List.singleton_append]
    by_cases hk : key = entry.1
    · rw [if_pos hk, hk, lookup_cons_self, Option.some_or]
    · rw [if_neg hk, lookup_cons_other hk]

theorem lookup_merged (p overrides : Params) (key : String) :
    (p.merged overrides).entries.lookup key =
      (overrides.entries.lookup key).or (p.entries.lookup key) := by
  have hn := nodup_of_sorted overrides.sorted
  have hreverse : overrides.entries.reverse.lookup key = overrides.entries.lookup key := by
    have hn' : (overrides.entries.reverse.map Prod.fst).Nodup := by
      rw [List.map_reverse]
      exact List.nodup_reverse.mpr hn
    ext value
    constructor
    · intro h
      exact lookup_of_mem hn (List.mem_reverse.mp (mem_of_lookup h))
    · intro h
      exact lookup_of_mem hn' (List.mem_reverse.mpr (mem_of_lookup h))
  rw [merged, lookup_foldl_put, hreverse]

/-- Overriding what was spelled is spelling more behind it. -/
theorem merged_ofList (entries overrides : List (String × String)) :
    (ofList entries).merged (ofList overrides) = ofList (entries ++ overrides) := by
  apply eq_of_find
  intro key
  rw [lookup_merged, lookup_ofList, lookup_ofList, lookup_ofList, setting_append]

end WideRow.Params
