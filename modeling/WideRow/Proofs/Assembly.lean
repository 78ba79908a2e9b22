import WideRow.Proofs.Spelling
import WideRow.Proofs.Trimming

/-!
# Parameters as a map

However parameters are put together, one by one or by overriding some with others, they are the map
from each key to the value that was written last under any spelling of it.
-/

namespace WideRow

namespace Params

/-! ## Keys -/

theorem normalizeKey_normalizeKey (key : String) :
    normalizeKey (normalizeKey key) = normalizeKey key :=
  Text.foldCase_trim_twice key

theorem get?_eq (p : Params) (key : String) :
    p.get? key = p.entries.lookup (normalizeKey key) :=
  find?_eq_lookup

theorem mem_entries_iff {p : Params} {key value : String} :
    (key, value) ∈ p.entries ↔ p.entries.lookup key = some value :=
  ⟨lookup_of_mem (nodup_of_sorted p.sorted), mem_of_lookup⟩

theorem setting_one (key value k : String) :
    setting [(key, value)] k = if k ≠ "" ∧ normalizeKey key = k then some value else none := by
  unfold setting
  by_cases hblank : k = ""
  · simp [hblank]
  · by_cases hk : normalizeKey key = k <;> simp [hblank, hk]

theorem normalized_of_setting {entries : List (String × String)} {key value : String}
    (h : setting entries key = some value) : key ≠ "" ∧ normalizeKey key = key := by
  -- What is found under a key was spelled, so the key is a spelling that counts.
  unfold setting at h
  split at h
  · cases h
  · rename_i hblank
    obtain ⟨entry, hlast, -⟩ := Option.map_eq_some_iff.mp h
    have hspelled := (List.mem_filter.mp (List.mem_of_getLast? hlast)).2
    rw [decide_eq_true_eq] at hspelled
    refine ⟨hblank, ?_⟩
    rw [← hspelled, normalizeKey_normalizeKey]

/-! ## Writing -/

theorem insert_comm (p : Params) {key key' : String} (h : normalizeKey key ≠ normalizeKey key')
    (value value' : String) :
    (p.insert key value).insert key' value' = (p.insert key' value').insert key value := by
  apply eq_of_find
  intro k
  rw [lookup_insert, lookup_insert, lookup_insert, lookup_insert, setting_one, setting_one]
  by_cases hk : normalizeKey key = k
  · -- The key is spelled by the one write, so not by the other.
    rw [if_neg (c := k ≠ "" ∧ normalizeKey key' = k) (fun hother => h (hk.trans hother.2.symm)),
      Option.none_or, Option.none_or]
  · rw [if_neg (c := k ≠ "" ∧ normalizeKey key = k) (fun hself => hk hself.2), Option.none_or,
      Option.none_or]

theorem get?_merged (p overrides : Params) (key : String) :
    (p.merged overrides).get? key = (overrides.get? key).or (p.get? key) := by
  rw [get?_eq, get?_eq, get?_eq, lookup_merged]

theorem merged_assoc (p q r : Params) : (p.merged q).merged r = p.merged (q.merged r) := by
  apply eq_of_find
  intro key
  rw [lookup_merged, lookup_merged, lookup_merged, lookup_merged, Option.or_assoc]

theorem merged_empty (p : Params) : p.merged empty = p := rfl

theorem empty_merged (p : Params) : empty.merged p = p := by
  apply eq_of_find
  intro key
  rw [lookup_merged]
  exact Option.or_none

end Params

/-! ## Putting parameters together -/

/-- How parameters are put together. -/
inductive Assembly where
  | empty
  /-- One more parameter, in the set itself or in a copy. -/
  | insert (a : Assembly) (key value : String)
  /-- Parameters overridden by others, which were put together in their turn. -/
  | merged (a overrides : Assembly)

namespace Assembly

def params : Assembly → Params
  | empty => .empty
  | insert a key value => a.params.insert key value
  | merged a overrides => a.params.merged overrides.params

/-- What is written under which spelling, the last at the end. -/
def written : Assembly → List (String × String)
  | empty => []
  | insert a key value => a.written ++ [(key, value)]
  | merged a overrides => a.written ++ overrides.written

theorem params_eq (a : Assembly) : a.params = Params.ofList a.written := by
  -- Each step is a writing of its own, so in the end only what was written counts.
  induction a with
  | empty => rfl
  | insert a key value ih => rw [params, written, Params.ofList_append_one, ih]
  | merged a overrides iha iho => rw [params, written, ← Params.merged_ofList, iha, iho]

theorem lookup_params (a : Assembly) (key : String) :
    a.params.entries.lookup key = Params.setting a.written key := by
  rw [params_eq, Params.lookup_ofList]

end Assembly

namespace Params

/-- The parameters are the map from each key to the value that was written last under a spelling of
it. -/
structure Maps (p : Params) (written : List (String × String)) : Prop where
  entry (key value : String) : (key, value) ∈ p.entries ↔ setting written key = some value
  normalized {key value : String} (h : (key, value) ∈ p.entries) :
    key ≠ "" ∧ normalizeKey key = key
  distinct : (p.entries.map Prod.fst).Nodup
  increasing : p.entries.Pairwise fun e f => e.1 < f.1
  found (spelling : String) : p.get? spelling = setting written (normalizeKey spelling)

theorem maps_written (a : Assembly) : a.params.Maps a.written := by
  have hentry : ∀ key value, (key, value) ∈ a.params.entries ↔
      setting a.written key = some value := by
    intro key value
    rw [mem_entries_iff, a.lookup_params]
  refine ⟨hentry, ?normalized, nodup_of_sorted a.params.sorted, a.params.sorted, ?found⟩
  case normalized =>
    intro key value h
    exact normalized_of_setting ((hentry key value).mp h)
  case found =>
    intro spelling
    rw [get?_eq, a.lookup_params]

/-- Parameters are the map of what was written last, whatever the order and the spelling, and are
equal exactly if these maps are. Overriding is associative, leaves the empty set out of account and
prefers the overrides, key by key. -/
theorem normalized_map :
    (∀ a : Assembly, a.params.Maps a.written) ∧
      (∀ a b : Assembly, a.params = b.params ↔
        ∀ key, setting a.written key = setting b.written key) ∧
      (∀ (p : Params) (key key' value value' : String), normalizeKey key ≠ normalizeKey key' →
        (p.insert key value).insert key' value' = (p.insert key' value').insert key value) ∧
      (∀ p q r : Params, (p.merged q).merged r = p.merged (q.merged r)) ∧
      (∀ p : Params, p.merged empty = p ∧ empty.merged p = p) ∧
      ∀ (p overrides : Params) (key : String),
        (p.merged overrides).get? key = (overrides.get? key).or (p.get? key) := by
  refine ⟨maps_written, ?equal, ?commute, merged_assoc, fun p => ⟨merged_empty p, empty_merged p⟩,
    get?_merged⟩
  case equal =>
    intro a b
    rw [a.params_eq, b.params_eq, ofList_eq_iff]
  case commute =>
    intro p key key' value value' h
    exact insert_comm p h value value'

/-- The host is spelled in three ways, and the last one is an override. -/
theorem normalized_map_spelled_thrice :
    let a : Assembly := .merged (.insert (.insert (.insert .empty " Host " "x") "port" "1") "HOST" "y")
      (.insert .empty "\thost" "z")
    let b : Assembly := .insert (.insert .empty "PORT" "1") "host" "z"
    setting a.written "host" = some "z" ∧ ("host", "z") ∈ a.params.entries ∧
      a.params.get? "hOsT\u00a0" = some "z" ∧ a.params = b.params ∧
      (∀ key, setting a.written key = setting b.written key) ∧
      normalizeKey " Host" ≠ normalizeKey "port" ∧
      (a.params.insert " Host" "u").insert "port" "2" = (a.params.insert "port" "2").insert " Host" "u" := by
  intro a b
  obtain ⟨hmaps, hequal, hcommute, -, -, -⟩ := normalized_map
  have hhost : setting a.written "host" = some "z" := by decide +kernel
  have hsame : a.params = b.params := by decide +kernel
  have hdistinct : normalizeKey " Host" ≠ normalizeKey "port" := by decide +kernel
  refine ⟨hhost, ((hmaps a).entry "host" "z").mpr hhost, ?_, hsame, (hequal a b).mp hsame,
    hdistinct, hcommute a.params _ _ _ _ hdistinct⟩
  rw [(hmaps a).found]
  decide +kernel

end Params

end WideRow
