import Mathlib.Data.List.Basic
import WideRow.Proofs.Collection
import WideRow.Proofs.Digest

/-!
# Look-ups by digest

A set and a map look a value up among the positions of one bucket. Whatever the digest, they answer
as a plain list that is searched from the front: the bucket has every position at which an equal
value can stand, in order.
-/

namespace WideRow

/-! ## Lists -/

/-- A set as a list of its items. -/
abbrev ListedSet := List Value

namespace ListedSet

def contains (l : ListedSet) (v : Value) : Bool :=
  l.any fun item => item.same v

def insert (l : ListedSet) (v : Value) : Bool × ListedSet :=
  if l.contains v then (false, l) else (true, l ++ [v])

/-- The values without those that are equal to an earlier one that is kept. -/
def ofList (vs : List Value) : ListedSet :=
  vs.foldl (fun l v => (l.insert v).2) []

end ListedSet

/-- A map as a list of its entries. -/
abbrev ListedMap := List (Value × Value)

namespace ListedMap

def get? : ListedMap → Value → Option Value
  | [], _ => none
  | (key, w) :: rest, k => if key.same k then some w else get? rest k

/-- Replaces the value of the first entry with the key, or adds an entry at the end. -/
def insert : ListedMap → Value → Value → Option Value × ListedMap
  | [], k, v => (none, [(k, v)])
  | (key, w) :: rest, k, v =>
    if key.same k then (some w, (key, v) :: rest)
    else
      let (old, later) := insert rest k v
      (old, (key, w) :: later)

/-- The entries with each later value of a key in the place of the first. -/
def ofList (entries : List (Value × Value)) : ListedMap :=
  entries.foldl (fun l entry => (l.insert entry.1 entry.2).2) []

end ListedMap

/-! ## Distinct values -/

/-- No value is equal to a later one. -/
def Distinct (vs : List Value) : Prop :=
  vs.Pairwise fun a b => a.same b = false

theorem distinct_append_one {vs : List Value} {v : Value} :
    Distinct (vs ++ [v]) ↔ Distinct vs ∧ ∀ item ∈ vs, item.same v = false := by
  simp [Distinct, List.pairwise_append]

theorem Distinct.both {vs : List Value} (h : Distinct vs) :
    vs.Pairwise fun a b => a.same b = false ∧ b.same a = false :=
  h.imp fun hab => ⟨hab, by rw [Value.same_comm, hab]⟩

/-! ## Calls -/

inductive SetCall where
  | insert (v : Value)
  | contains (v : Value)

inductive MapCall where
  | insert (k v : Value)
  | get (k : Value)

def ValueSet.perform (digest : Digest) (s : ValueSet) : SetCall → Bool × ValueSet
  | .insert v => s.insert digest v
  | .contains v => (s.contains digest v, s)

def ListedSet.perform (l : ListedSet) : SetCall → Bool × ListedSet
  | .insert v => l.insert v
  | .contains v => (l.contains v, l)

def ValueMap.perform (digest : Digest) (m : ValueMap) : MapCall → Option Value × ValueMap
  | .insert k v => m.insert digest k v
  | .get k => (m.get? digest k, m)

def ListedMap.perform (l : ListedMap) : MapCall → Option Value × ListedMap
  | .insert k v => l.insert k v
  | .get k => (l.get? k, l)

/-- The answers to calls made one after the other, and the state after them. -/
def answers {σ κ α : Type} (perform : σ → κ → α × σ) (start : σ) : List κ → List α × σ
  | [] => ([], start)
  | call :: calls =>
    let (answer, next) := perform start call
    let (later, last) := answers perform next calls
    (answer :: later, last)

section Runs

variable {σ τ κ α : Type} (f : σ → κ → α × σ) (g : τ → κ → α × τ) (view : σ → τ)

theorem answers_preserve (Inv : σ → Prop) (hstep : ∀ s call, Inv s → Inv (f s call).2) (s : σ)
    (h : Inv s) (calls : List κ) : Inv (answers f s calls).2 := by
  induction calls generalizing s with
  | nil => exact h
  | cons call calls ih => exact ih _ (hstep s call h)

/-- What answers and moves call by call as another does, seen through `view`, does so in any run. -/
theorem answers_follow {Inv : σ → Prop}
    (hstep : ∀ s call, Inv s → (f s call).1 = (g (view s) call).1 ∧
      view (f s call).2 = (g (view s) call).2 ∧ Inv (f s call).2)
    {s : σ} (h : Inv s) (calls : List κ) :
    (answers f s calls).1 = (answers g (view s) calls).1 ∧
      view (answers f s calls).2 = (answers g (view s) calls).2 := by
  induction calls generalizing s with
  | nil => exact ⟨rfl, rfl⟩
  | cons call calls ih =>
    obtain ⟨hanswer, hview, hnext⟩ := hstep s call h
    obtain ⟨hanswers, hlast⟩ := ih hnext
    rw [hview] at hanswers hlast
    exact ⟨congrArg₂ List.cons hanswer hanswers, hlast⟩

end Runs

/-! ## Buckets -/

variable {digest : Digest}

namespace ValueIndex

/-- Each bucket has the positions of the keys that are digested to it, in order. -/
def Lists (digest : Digest) (index : ValueIndex) (keys : List Value) : Prop :=
  ∀ bucket, (index.buckets.getD bucket #[]).toList =
    keys.findIdxs fun k => digest k.describe == bucket

theorem lists_empty : Lists digest empty [] := by
  intro bucket
  simp [empty]

theorem Lists.push {index : ValueIndex} {keys : List Value} (h : Lists digest index keys)
    (k : Value) :
    Lists digest (index.push (digest k.describe) keys.length) (keys ++ [k]) := by
  intro bucket
  rw [ValueIndex.push, Std.HashMap.getD_insert, List.findIdxs_append, ← h bucket]
  by_cases hbucket : digest k.describe = bucket
  · simp [hbucket]
  · simp [hbucket]

theorem find?_findIdxs {keys : List Value} {p q : Value → Bool} {test : Nat → Bool}
    (hpq : ∀ k, p k = true → q k = true) (start : Nat)
    (htest : ∀ i (h : i < keys.length), test (i + start) = p keys[i]) :
    (keys.findIdxs q start).find? test = (keys.findIdx? p).map (· + start) := by
  induction keys generalizing start with
  | nil => rfl
  | cons k keys ih =>
    have hhead : test start = p k := by
      rw [← Nat.zero_add start, htest 0 (by simp), List.getElem_cons_zero]
    have htail := ih (start + 1) fun i h => by
      have := htest (i + 1) (by simpa using h)
      simpa [Nat.add_assoc, Nat.add_comm 1] using this
    rw [List.findIdxs_cons, List.findIdx?_cons]
    by_cases hp : p k = true
    · rw [if_pos (hpq k hp), List.find?_cons_of_pos (by rw [hhead, hp]), if_pos hp]
      simp
    · have hlater : ((keys.findIdx? p).map (· + 1)).map (· + start) =
          (keys.findIdx? p).map (· + (start + 1)) := by
        simp [Function.comp_def, Nat.add_assoc, Nat.add_comm 1]
      rw [if_neg hp, hlater, ← htail]
      by_cases hq : q k = true
      · rw [if_pos hq, List.find?_cons_of_neg (by rw [hhead]; exact hp)]
      · rw [if_neg hq]

theorem Lists.find? {index : ValueIndex} {keys : List Value} (h : Lists digest index keys)
    (v : Value) :
    index.find? (digest v.describe) (fun i => keys[i]?.any fun k => k.same v) =
      keys.findIdx? fun k => k.same v := by
  rw [ValueIndex.find?, ← Array.find?_toList, h]
  have hsame (k : Value) (hk : k.same v = true) :
      (digest k.describe == digest v.describe) = true := by
    rw [Value.describe_of_same hk, beq_self_eq_true]
  rw [find?_findIdxs hsame 0 (by simp +contextual)]
  simp

end ValueIndex

/-! ## Sets -/

namespace ListedSet

theorem perform_distinct {l : ListedSet} (h : Distinct l) (call : SetCall) :
    Distinct (l.perform call).2 := by
  cases call with
  | contains v => exact h
  | insert v =>
    change Distinct (l.insert v).2
    unfold insert
    split
    · exact h
    · rename_i hc
      rw [contains, List.any_eq_true] at hc
      refine distinct_append_one.mpr ⟨h, ?_⟩
      intro item hitem
      exact Bool.eq_false_iff.mpr fun hsame => hc ⟨item, hitem, hsame⟩

theorem answers_distinct (calls : List SetCall) : Distinct (answers perform [] calls).2 :=
  answers_preserve perform Distinct (fun _ call h => perform_distinct h call) [] .nil calls

end ListedSet

namespace ValueSet

def Indexed (digest : Digest) (s : ValueSet) : Prop :=
  s.index.Lists digest s.toList

theorem indexed_empty : empty.Indexed digest :=
  ValueIndex.lists_empty

theorem Indexed.position?_eq {s : ValueSet} (h : s.Indexed digest) (v : Value) :
    s.position? digest v = s.toList.findIdx? fun item => item.same v := by
  rw [← h.find?, position?]
  congr 1
  funext i
  rw [toList, Array.getElem?_toList]
  cases s.items[i]? <;> rfl

theorem Indexed.contains_eq {s : ValueSet} (h : s.Indexed digest) (v : Value) :
    s.contains digest v = ListedSet.contains s.toList v := by
  rw [contains, h.position?_eq, List.findIdx?_isSome, ListedSet.contains]

theorem Indexed.insert {s : ValueSet} (h : s.Indexed digest) (v : Value) :
    (s.insert digest v).1 = (ListedSet.insert s.toList v).1 ∧
      (s.insert digest v).2.toList = (ListedSet.insert s.toList v).2 ∧
      (s.insert digest v).2.Indexed digest := by
  unfold ValueSet.insert ListedSet.insert
  rw [h.contains_eq]
  by_cases hc : ListedSet.contains s.toList v = true
  · rw [if_pos hc, if_pos hc]
    exact ⟨rfl, rfl, h⟩
  · rw [if_neg hc, if_neg hc]
    have hitems : (s.items.push v).toList = s.toList ++ [v] := by simp [toList]
    refine ⟨rfl, hitems, ?_⟩
    unfold Indexed
    rw [toList, hitems]
    exact ValueIndex.Lists.push h v

theorem Indexed.perform {s : ValueSet} (h : s.Indexed digest) (call : SetCall) :
    (s.perform digest call).1 = (ListedSet.perform s.toList call).1 ∧
      (s.perform digest call).2.toList = (ListedSet.perform s.toList call).2 ∧
      (s.perform digest call).2.Indexed digest := by
  cases call with
  | insert v => exact h.insert v
  | contains v => exact ⟨h.contains_eq v, rfl, h⟩

theorem answers_eq (digest : Digest) (calls : List SetCall) :
    (answers (perform digest) empty calls).1 = (answers ListedSet.perform [] calls).1 ∧
      (answers (perform digest) empty calls).2.toList = (answers ListedSet.perform [] calls).2 :=
  answers_follow (perform digest) ListedSet.perform toList
    (fun _ call h => Indexed.perform h call) indexed_empty calls

theorem indexed_ofList (vs : List Value) : (ofList digest vs).Indexed digest := by
  induction vs using List.reverseRecOn with
  | nil => exact indexed_empty
  | append_singleton vs v ih =>
    rw [ofList_append_one]
    exact (ih.insert v).2.2

theorem toList_ofList {vs : List Value} (h : Distinct vs) : (ofList digest vs).toList = vs := by
  induction vs using List.reverseRecOn with
  | nil => rfl
  | append_singleton vs v ih =>
    obtain ⟨hfront, hlast⟩ := distinct_append_one.mp h
    have hitems := ih hfront
    rw [ofList_append_one, ((indexed_ofList vs).insert v).2.1, hitems]
    rw [ListedSet.insert, if_neg]
    rw [ListedSet.contains, List.any_eq_true]
    rintro ⟨item, hmem, hsame⟩
    rw [hlast item hmem] at hsame
    cases hsame

theorem toList_ofList_eq (vs : List Value) :
    (ofList digest vs).toList = ListedSet.ofList vs := by
  induction vs using List.reverseRecOn with
  | nil => rfl
  | append_singleton vs v ih =>
    rw [ofList_append_one, ((indexed_ofList vs).insert v).2.1, ih, ListedSet.ofList,
      ListedSet.ofList, List.foldl_append, List.foldl_cons, List.foldl_nil]

end ValueSet

/-! ## Maps -/

namespace ListedMap

theorem get?_eq (l : ListedMap) (k : Value) :
    l.get? k = (l.findIdx? fun entry => entry.1.same k).bind fun i => l[i]?.map (·.2) := by
  induction l with
  | nil => rfl
  | cons entry l ih =>
    obtain ⟨key, w⟩ := entry
    rw [get?, List.findIdx?_cons]
    split
    · rfl
    · rw [ih, Option.bind_map]
      rfl

theorem insert_found {l : ListedMap} {k : Value} {i : Nat}
    (h : l.findIdx? (fun entry => entry.1.same k) = some i) (v : Value) :
    l.insert k v = (l[i]?.map (·.2), l.modify i fun entry => (entry.1, v)) := by
  induction l generalizing i with
  | nil => cases h
  | cons entry l ih =>
    obtain ⟨key, w⟩ := entry
    rw [List.findIdx?_cons] at h
    rw [insert]
    by_cases hkey : key.same k = true
    · rw [if_pos hkey] at h ⊢
      cases h
      rfl
    · rw [if_neg hkey] at h ⊢
      obtain ⟨j, hj, rfl⟩ := Option.map_eq_some_iff.mp h
      rw [ih hj]
      rfl

theorem insert_absent {l : ListedMap} {k : Value}
    (h : l.findIdx? (fun entry => entry.1.same k) = none) (v : Value) :
    l.insert k v = (none, l ++ [(k, v)]) := by
  induction l with
  | nil => rfl
  | cons entry l ih =>
    obtain ⟨key, w⟩ := entry
    rw [List.findIdx?_cons] at h
    rw [insert]
    by_cases hkey : key.same k = true
    · rw [if_pos hkey] at h
      cases h
    · rw [if_neg hkey, Option.map_eq_none_iff] at h
      rw [if_neg hkey, ih h]
      rfl

theorem perform_distinct {l : ListedMap} (h : Distinct (l.map (·.1))) (call : MapCall) :
    Distinct ((l.perform call).2.map (·.1)) := by
  cases call with
  | get k => exact h
  | insert k v =>
    change Distinct ((l.insert k v).2.map (·.1))
    cases hp : l.findIdx? fun entry => entry.1.same k with
    | some i =>
      rw [insert_found hp, ValueMap.map_fst_modify]
      exact h
    | none =>
      rw [insert_absent hp, List.map_append]
      refine distinct_append_one.mpr ⟨h, ?_⟩
      intro key hkey
      obtain ⟨entry, hentry, rfl⟩ := List.mem_map.mp hkey
      exact List.findIdx?_eq_none_iff.mp hp entry hentry

theorem answers_distinct (calls : List MapCall) :
    Distinct ((answers perform [] calls).2.map (·.1)) :=
  answers_preserve perform (fun l => Distinct (l.map (·.1)))
    (fun _ call h => perform_distinct h call) [] .nil calls

end ListedMap

namespace ValueMap

def Indexed (digest : Digest) (m : ValueMap) : Prop :=
  m.index.Lists digest m.keys

theorem indexed_empty : empty.Indexed digest :=
  ValueIndex.lists_empty

theorem Indexed.position?_eq {m : ValueMap} (h : m.Indexed digest) (k : Value) :
    m.position? digest k = m.toList.findIdx? fun entry => entry.1.same k := by
  have hkeys := h.find? k
  rw [keys, List.findIdx?_map] at hkeys
  rw [position?]
  refine Eq.trans ?_ hkeys
  congr 1
  funext i
  rw [List.getElem?_map, toList, Array.getElem?_toList]
  cases m.entries[i]? <;> rfl

theorem Indexed.get?_eq {m : ValueMap} (h : m.Indexed digest) (k : Value) :
    m.get? digest k = ListedMap.get? m.toList k := by
  rw [get?, h.position?_eq, ListedMap.get?_eq]
  cases m.toList.findIdx? fun entry => entry.1.same k with
  | none => rfl
  | some i => rw [Option.bind_some, toList, Array.getElem?_toList]

theorem Indexed.insert {m : ValueMap} (h : m.Indexed digest) (k v : Value) :
    (m.insert digest k v).1 = (ListedMap.insert m.toList k v).1 ∧
      (m.insert digest k v).2.toList = (ListedMap.insert m.toList k v).2 ∧
      (m.insert digest k v).2.Indexed digest := by
  unfold ValueMap.insert
  rw [h.position?_eq]
  cases hp : m.toList.findIdx? fun entry => entry.1.same k with
  | some i =>
    rw [ListedMap.insert_found hp]
    have hentries : (m.entries.modify i fun entry => (entry.1, v)).toList =
        m.toList.modify i fun entry => (entry.1, v) := by simp [toList]
    refine ⟨by rw [toList, Array.getElem?_toList], hentries, ?_⟩
    unfold Indexed keys
    rw [toList, hentries, map_fst_modify]
    exact h
  | none =>
    rw [ListedMap.insert_absent hp]
    have hentries : (m.entries.push (k, v)).toList = m.toList ++ [(k, v)] := by simp [toList]
    refine ⟨rfl, hentries, ?_⟩
    have hlength : m.entries.size = m.keys.length := by simp [keys, toList]
    unfold Indexed keys
    rw [toList, hentries, List.map_append, hlength]
    exact ValueIndex.Lists.push h k

theorem Indexed.perform {m : ValueMap} (h : m.Indexed digest) (call : MapCall) :
    (m.perform digest call).1 = (ListedMap.perform m.toList call).1 ∧
      (m.perform digest call).2.toList = (ListedMap.perform m.toList call).2 ∧
      (m.perform digest call).2.Indexed digest := by
  cases call with
  | insert k v => exact h.insert k v
  | get k => exact ⟨h.get?_eq k, rfl, h⟩

theorem answers_eq (digest : Digest) (calls : List MapCall) :
    (answers (perform digest) empty calls).1 = (answers ListedMap.perform [] calls).1 ∧
      (answers (perform digest) empty calls).2.toList = (answers ListedMap.perform [] calls).2 :=
  answers_follow (perform digest) ListedMap.perform toList
    (fun _ call h => Indexed.perform h call) indexed_empty calls

theorem indexed_ofList (entries : List (Value × Value)) :
    (ofList digest entries).Indexed digest := by
  induction entries using List.reverseRecOn with
  | nil => exact indexed_empty
  | append_singleton entries entry ih =>
    rw [ofList_append_one]
    exact (ih.insert entry.1 entry.2).2.2

theorem toList_ofList {entries : List (Value × Value)} (h : Distinct (entries.map (·.1))) :
    (ofList digest entries).toList = entries := by
  induction entries using List.reverseRecOn with
  | nil => rfl
  | append_singleton entries entry ih =>
    rw [List.map_append, List.map_singleton, distinct_append_one] at h
    have hentries := ih h.1
    have habsent : entries.findIdx? (fun e => e.1.same entry.1) = none :=
      List.findIdx?_eq_none_iff.mpr fun e he => h.2 e.1 (List.mem_map_of_mem he)
    rw [ofList_append_one, ((indexed_ofList entries).insert entry.1 entry.2).2.1, hentries]
    rw [ListedMap.insert_absent habsent]

theorem toList_ofList_eq (entries : List (Value × Value)) :
    (ofList digest entries).toList = ListedMap.ofList entries := by
  induction entries using List.reverseRecOn with
  | nil => rfl
  | append_singleton entries entry ih =>
    rw [ofList_append_one, ((indexed_ofList entries).insert entry.1 entry.2).2.1, ih,
      ListedMap.ofList, ListedMap.ofList, List.foldl_append, List.foldl_cons, List.foldl_nil]

end ValueMap

theorem Value.setOf_eq (vs : List Value) : setOf vs = .set (ListedSet.ofList vs) :=
  congrArg Value.set (ValueSet.toList_ofList_eq vs)

theorem Value.mapOf_eq (entries : List (Value × Value)) :
    mapOf entries = .map (ListedMap.ofList entries) :=
  congrArg Value.map (ValueMap.toList_ofList_eq entries)

/-! ## Any run of calls -/

/-- Whatever values are inserted and looked up, and whatever the digest, a set and a map answer and
are listed as the plain lists are. No two items or keys are equal, and what is listed can be
inserted again in that order. -/
theorem collections_follow_lists (digest rebuilding : Digest) (setCalls : List SetCall)
    (mapCalls : List MapCall) :
    (let s := answers (ValueSet.perform digest) .empty setCalls
      let l := answers ListedSet.perform [] setCalls
      s.1 = l.1 ∧ s.2.size = l.2.length ∧ s.2.toList = l.2 ∧
        s.2.toList.Pairwise (fun a b => a.same b = false ∧ b.same a = false) ∧
        (ValueSet.ofList rebuilding s.2.toList).toList = s.2.toList) ∧
    (let m := answers (ValueMap.perform digest) .empty mapCalls
      let l := answers ListedMap.perform [] mapCalls
      m.1 = l.1 ∧ m.2.size = l.2.length ∧ m.2.toList = l.2 ∧
        m.2.keys.Pairwise (fun a b => a.same b = false ∧ b.same a = false) ∧
        (ValueMap.ofList rebuilding m.2.toList).toList = m.2.toList) := by
  constructor
  · have hdistinct := ListedSet.answers_distinct setCalls
    obtain ⟨hanswers, hlist⟩ := ValueSet.answers_eq digest setCalls
    rw [← hlist] at hdistinct
    refine ⟨hanswers, ?_, hlist, hdistinct.both, ValueSet.toList_ofList hdistinct⟩
    rw [← hlist]
    rfl
  · have hdistinct := ListedMap.answers_distinct mapCalls
    obtain ⟨hanswers, hlist⟩ := ValueMap.answers_eq digest mapCalls
    rw [← hlist] at hdistinct
    refine ⟨hanswers, ?_, hlist, hdistinct.both, ValueMap.toList_ofList hdistinct⟩
    rw [← hlist]
    rfl

-- All in one bucket: what is no number is added each time, the second zero is not.
example :
    (answers (ValueSet.perform fun _ => 0) .empty
      [.insert (.double ⟨0x7FF8000000000000⟩), .insert (.double ⟨0x7FF8000000000000⟩),
        .insert (.double ⟨0⟩), .insert (.double ⟨0x8000000000000000⟩),
        .contains (.double ⟨0x7FF8000000000000⟩)]).1 = [true, true, true, false, false] := by
  cbv

end WideRow
