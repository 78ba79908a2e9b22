import Mathlib.Data.List.Nodup
import WideRow.Proofs.Holding
import WideRow.Session.Script

/-! # Every session is closed once -/

namespace WideRow

/-! ## Totals -/

def ClusterEvent.cluster : ClusterEvent → ClusterId
  | built id | connected id | queried id | sessionClosed id | clusterClosed id => id

/-- The clusters that events of a kind happened to, one for each event. -/
def clustersOf (kind : ClusterId → ClusterEvent) (events : List ClusterEvent) : List ClusterId :=
  (events.filter fun event => event = kind event.cluster).map ClusterEvent.cluster

theorem clustersOf_cons (kind : ClusterId → ClusterEvent) (event : ClusterEvent)
    (events : List ClusterEvent) :
    clustersOf kind (event :: events) =
      if event = kind event.cluster then event.cluster :: clustersOf kind events
      else clustersOf kind events := by
  unfold clustersOf
  rw [List.filter_cons]
  by_cases h : event = kind event.cluster
  · rw [if_pos h, if_pos (decide_eq_true h), List.map_cons]
  · rw [if_neg h, if_neg (by simpa using h)]

theorem count_clustersOf {kind : ClusterId → ClusterEvent} (hkind : ∀ id, (kind id).cluster = id)
    (events : List ClusterEvent) (id : ClusterId) :
    (clustersOf kind events).count id = events.count (kind id) := by
  induction events with
  | nil => rfl
  | cons event events ih =>
    rw [clustersOf_cons, List.count_cons]
    by_cases h : event = kind event.cluster
    · rw [if_pos h, List.count_cons, ih]
      congr 1
      by_cases hid : event.cluster = id
      · rw [hid] at h
        simp [h, hkind]
      · have hne : event ≠ kind id := by
          intro heq
          rw [heq, hkind] at hid
          exact hid rfl
        simp [hid, hne]
    · have hne : event ≠ kind id := by
        intro heq
        rw [heq, hkind] at h
        exact h rfl
      rw [if_neg h, ih]
      simp [hne]

theorem foldl_add (events : List ClusterEvent) (c : ClusterCounts) :
    events.foldl ClusterCounts.add c =
      ⟨c.builds + (clustersOf .built events).length,
        c.connects + (clustersOf .connected events).length,
        c.queries + (clustersOf .queried events).length,
        c.sessionCloses + (clustersOf .sessionClosed events).length,
        c.clusterCloses + (clustersOf .clusterClosed events).length⟩ := by
  induction events generalizing c with
  | nil => rfl
  | cons event events ih =>
    rw [List.foldl_cons, ih]
    cases event <;> simp [clustersOf_cons, ClusterCounts.add, ClusterEvent.cluster] <;> omega

theorem ofEvents_eq (events : List ClusterEvent) :
    ClusterCounts.ofEvents events =
      ⟨(clustersOf .built events).length, (clustersOf .connected events).length,
        (clustersOf .queried events).length, (clustersOf .sessionClosed events).length,
        (clustersOf .clusterClosed events).length⟩ := by
  rw [ClusterCounts.ofEvents, foldl_add]
  simp [ClusterCounts.zero]

namespace Account

/-- Whether the handle is there and not disposed. -/
def opens (handle : Option Handle) : Nat :=
  if handle.any (!·.isDisposed) then 1 else 0

theorem opens_of_marked {handle : Option Handle}
    (marked : ∀ h, handle = some h → h.refs = Handle.disposedRefs) : opens handle = 0 := by
  cases handle with
  | none => rfl
  | some h =>
    unfold opens
    rw [Option.any_some, Handle.isDisposed_of_marked (marked h rfl)]
    rfl

theorem opens_of_nonneg {h : Handle} (nonneg : 0 ≤ h.refs.toInt) : opens (some h) = 1 := by
  have hlive : h.isDisposed = false := by
    rw [← Bool.not_eq_true, h.isDisposed_iff]
    omega
  unfold opens
  rw [Option.any_some, hlive]
  rfl

theorem balance {handle : Option Handle} {m : Marks} {t : Tally} (h : Account handle m t) :
    m.connected = m.sessionClosed + opens handle ∧ m.built = m.clusterClosed + opens handle := by
  cases h with
  | failed => exact ⟨rfl, rfl⟩
  | live counted nonneg kept =>
    rw [opens_of_nonneg nonneg]
    exact ⟨rfl, rfl⟩
  | disposed marked =>
    rw [opens_of_marked marked]
    exact ⟨rfl, rfl⟩
  | dropped => exact ⟨rfl, rfl⟩

theorem closed_of_none {m : Marks} {t : Tally} (h : Account none m t) (hm : 0 < m.connected) :
    m.sessionClosed = 1 ∧ m.clusterClosed = 1 := by
  cases h with
  | failed => cases hm
  | disposed => exact ⟨rfl, rfl⟩
  | dropped => exact ⟨rfl, rfl⟩

end Account

namespace Pool

variable {σ : Type}

/-- The handles that are not disposed. -/
def live (p : Pool σ) : List ClusterId :=
  (p.handles.filter fun entry => !entry.2.isDisposed).map Prod.fst

theorem count_live {p : Pool σ} (hn : (p.handles.map Prod.fst).Nodup) (id : ClusterId) :
    p.live.count id = Account.opens (p.handle? id) := by
  have hmem : id ∈ p.live ↔ (p.handle? id).any (!·.isDisposed) = true := by
    unfold live
    rw [List.mem_map, Option.any_eq_true]
    constructor
    · rintro ⟨⟨i, h⟩, hentry, rfl⟩
      obtain ⟨hentry, hlive⟩ := List.mem_filter.mp hentry
      exact ⟨h, lookup_of_mem hn hentry, hlive⟩
    · rintro ⟨h, hid, hlive⟩
      exact ⟨(id, h), List.mem_filter.mpr ⟨mem_of_lookup hid, hlive⟩, rfl⟩
  have hnodup : p.live.Nodup := nodup_filter _ hn
  unfold Account.opens
  rw [hnodup.count]
  simp only [hmem]

theorem Sound.balance {p : Pool σ} {history : List RefEvent} (hp : p.Sound history)
    (id : ClusterId) :
    p.events.count (.connected id) = p.events.count (.sessionClosed id) + p.live.count id ∧
      p.events.count (.built id) = p.events.count (.clusterClosed id) + p.live.count id := by
  rw [count_live hp.nodup]
  rcases Nat.lt_or_ge id p.nextId with hid | hid
  · exact (hp.account id hid).balance
  · obtain ⟨hnone, hmarks, -⟩ := hp.later id hid
    rw [hnone]
    exact ⟨(congrArg Marks.connected hmarks).trans (congrArg Marks.sessionClosed hmarks).symm,
      (congrArg Marks.built hmarks).trans (congrArg Marks.clusterClosed hmarks).symm⟩

theorem Sound.totals {p : Pool σ} {history : List RefEvent} (hp : p.Sound history) :
    p.counts.connects = p.counts.sessionCloses + p.live.length ∧
      p.counts.builds = p.counts.clusterCloses + p.live.length := by
  rw [counts, ofEvents_eq]
  simp only [← List.length_append]
  refine ⟨List.Perm.length_eq (List.perm_iff_count.mpr ?_),
    List.Perm.length_eq (List.perm_iff_count.mpr ?_)⟩ <;> intro id
  · rw [List.count_append, count_clustersOf fun _ => rfl, count_clustersOf fun _ => rfl]
    exact (hp.balance id).1
  · rw [List.count_append, count_clustersOf fun _ => rfl, count_clustersOf fun _ => rfl]
    exact (hp.balance id).2

/-! ## The end -/

/-- Every handle that is there is held. -/
def Swept (p : Pool σ) : Prop :=
  ∀ id ∈ p.ids, p.isHeld id = true

theorem swept_sweep (p : Pool σ) : p.sweep.Swept := by
  intro id h
  rw [isHeld_sweep]
  exact (mem_ids_sweep.mp h).2

theorem Swept.dropConnection {p : Pool σ} (hp : p.Swept) (name : String) :
    (p.dropConnection name).2.Swept := by
  unfold Pool.dropConnection
  split
  · exact swept_sweep _
  · exact hp

/-- Who holds handles other than by connections with the names. -/
def HeldBy (p : Pool σ) (names : List String) (id : ClusterId) : Prop :=
  (∃ entry ∈ p.cache.entries, entry.2 = id) ∨ (∃ entry ∈ p.named, entry.2 = id) ∨
    ∃ entry ∈ p.connections, entry.1 ∉ names ∧ entry.2.handle = some id

theorem heldBy_releaseConnection {p : Pool σ} {c : Connection} {names : List String}
    {id : ClusterId} (h : (p.releaseConnection c).2.HeldBy names id) : p.HeldBy names id := by
  unfold releaseConnection releaseHandle at h
  split at h
  · split at h
    · simp only at h
      split at h
      · rcases h with ⟨entry, hentry, hid⟩ | h
        · exact .inl ⟨entry, SessionCache.mem_evict hentry, hid⟩
        · exact .inr h
      · exact h
    · exact h
  · exact h

theorem heldBy_sweep (p : Pool σ) (names : List String) (id : ClusterId) :
    p.sweep.HeldBy names id ↔ p.HeldBy names id := by
  unfold HeldBy
  rw [cache_sweep, named_sweep, connections_sweep]

theorem heldBy_dropConnection {p : Pool σ} {name : String} {names : List String} {id : ClusterId}
    (h : (p.dropConnection name).2.HeldBy names id) : p.HeldBy (name :: names) id := by
  unfold dropConnection at h
  split at h
  · rename_i c _
    rw [heldBy_sweep] at h
    rcases h with h | h | ⟨entry, hentry, hname, hid⟩
    · exact heldBy_releaseConnection (c := c) (.inl h)
    · exact heldBy_releaseConnection (c := c) (.inr (.inl h))
    · unfold Names.remove at hentry
      obtain ⟨hentry, hne⟩ := List.mem_filter.mp hentry
      have hnames : entry.1 ∉ name :: names := by
        rw [List.mem_cons, not_or]
        exact ⟨by simpa using hne, hname⟩
      exact heldBy_releaseConnection (c := c) (.inr (.inr ⟨entry, hentry, hnames, hid⟩))
  · rename_i hnone
    rcases h with h | h | ⟨entry, hentry, hname, hid⟩
    · exact .inl h
    · exact .inr (.inl h)
    · refine .inr (.inr ⟨entry, hentry, ?_, hid⟩)
      rw [List.mem_cons, not_or]
      refine ⟨?_, hname⟩
      have := List.lookup_eq_none_iff.mp hnone entry hentry
      rintro rfl
      simp at this

theorem heldBy_dropAll {l : List (String × Connection)} {p : Pool σ} {id : ClusterId}
    (h : (l.foldl (fun p c => (p.dropConnection c.1).2) p).HeldBy [] id) :
    p.HeldBy (l.map Prod.fst) id := by
  induction l generalizing p with
  | nil => exact h
  | cons c l ih =>
    rw [List.foldl_cons] at h
    exact heldBy_dropConnection (ih h)

theorem swept_dropAll {p : Pool σ} (hp : p.Swept) (l : List (String × Connection)) :
    (l.foldl (fun p c => (p.dropConnection c.1).2) p).Swept := by
  induction l generalizing p with
  | nil => exact hp
  | cons c l ih => exact ih (hp.dropConnection c.1)

theorem sound_dropAll {p : Pool σ} {history : List RefEvent} (hp : p.Sound history)
    (l : List (String × Connection)) :
    ∃ more, (l.foldl (fun p c => (p.dropConnection c.1).2) p).Sound (history ++ more) := by
  induction l generalizing p history with
  | nil => exact ⟨[], (List.append_nil history).symm ▸ hp⟩
  | cons c l ih =>
    obtain ⟨more, hmore⟩ := ih (hp.dropConnection c.1)
    exact ⟨p.givenBackAs c.1 ++ more, by rw [← List.append_assoc]; exact hmore⟩

theorem handles_finish (p : Pool σ) : p.finish.handles = [] := by
  unfold finish
  generalize hemptied : { p with cache := p.cache.clear }.sweep = emptied
  generalize hunnamed : { emptied with named := [] }.sweep = unnamed
  simp only [hunnamed]
  have hcache : unnamed.cache.entries = [] := by
    rw [← hunnamed, cache_sweep, ← hemptied, cache_sweep]
    exact p.cache.entries_clear
  have hnamed : unnamed.named = [] := by rw [← hunnamed, named_sweep]
  have hswept := swept_dropAll (hunnamed ▸ swept_sweep _) unnamed.connections
  refine List.eq_nil_iff_forall_not_mem.mpr ?_
  intro entry hentry
  -- A handle that is left would be held, and every holder was dropped.
  have hheld := isHeld_iff.mp (hswept entry.1 (List.mem_map_of_mem hentry))
  have hby : (unnamed.connections.foldl (fun p c => (p.dropConnection c.1).2) unnamed).HeldBy []
      entry.1 := by
    rcases hheld with h | h | ⟨e, he, hid⟩
    · exact .inl h
    · exact .inr (.inl h)
    · exact .inr (.inr ⟨e, he, List.not_mem_nil, hid⟩)
  rcases heldBy_dropAll hby with ⟨e, he, -⟩ | ⟨e, he, -⟩ | ⟨e, he, hname, -⟩
  · rw [hcache] at he
    cases he
  · rw [hnamed] at he
    cases he
  · exact hname (List.mem_map_of_mem he)

theorem Sound.finish {p : Pool σ} {history : List RefEvent} (hp : p.Sound history) :
    ∃ more, p.finish.Sound (history ++ more) := by
  unfold Pool.finish
  have hemptied : { p with cache := p.cache.clear }.sweep.Sound history :=
    Sound.sweep (hp.congr rfl rfl rfl)
  generalize { p with cache := p.cache.clear }.sweep = emptied at hemptied
  have hunnamed : { emptied with named := [] }.sweep.Sound history :=
    Sound.sweep (hemptied.congr rfl rfl rfl)
  exact sound_dropAll hunnamed _

/-! ## Stages -/

end Pool

/-- The stages of a handle that was built. -/
inductive Stage where
  | live
  | disposed
  | dropped

namespace Pool

variable {σ : Type}

/-- How often the session and the cluster were closed. -/
def Closed (p : Pool σ) (id : ClusterId) (times : Nat) : Prop :=
  p.events.count (.sessionClosed id) = times ∧ p.events.count (.clusterClosed id) = times

/-- Which stage a handle has reached after a history of references. -/
def IsAt (p : Pool σ) (history : List RefEvent) (id : ClusterId) : Stage → Prop
  | .live =>
    (∃ h, p.handle? id = some h ∧ h.refs.toInt = outstanding history id ∧ 0 ≤ h.refs.toInt ∧
        (.acquired id ∈ history → 0 < h.refs.toInt)) ∧
      history.count (.released id true) = 0 ∧ p.Closed id 0
  | .disposed =>
    (∀ h, p.handle? id = some h → h.refs.toInt = -1) ∧ p.acquireHandle id = (false, p) ∧
      p.releaseHandle id = (false, p) ∧ history.count (.released id true) = 1 ∧ p.Closed id 1
  | .dropped =>
    p.handle? id = none ∧ p.isHeld id = false ∧ history.count (.released id true) = 0 ∧ p.Closed id 1

theorem isAt_unique {p : Pool σ} {history : List RefEvent} {id : ClusterId} {s t : Stage}
    (hs : p.IsAt history id s) (ht : p.IsAt history id t) : s = t := by
  unfold IsAt Closed at hs ht
  cases s <;> cases t <;> simp only at hs ht <;> first | rfl | omega

theorem Tethered.not_held {p : Pool σ} (hp : p.Tethered) {id : ClusterId}
    (h : p.handle? id = none) : p.isHeld id = false := by
  by_contra hheld
  rw [Bool.not_eq_false] at hheld
  exact not_mem_of_handle? h (hp id hheld)

theorem refuses_of_marked {p : Pool σ} {history : List RefEvent} (hp : p.Sound history)
    {id : ClusterId} (hm : ∀ h, p.handle? id = some h → h.refs = Handle.disposedRefs) :
    (∀ h, p.handle? id = some h → h.refs.toInt = -1) ∧ p.acquireHandle id = (false, p) ∧
      p.releaseHandle id = (false, p) := by
  cases hid : p.handle? id with
  | none =>
    refine ⟨?_, acquireHandle_none hid, releaseHandle_none hid⟩
    intro h heq
    cases heq
  | some h =>
    have hmarked := hm h hid
    have hrefs : h.refs.toInt = -1 := by
      rw [hmarked]
      rfl
    refine ⟨?_, ?_, releaseHandle_idle hp hid (by omega)⟩
    · intro x hx
      cases hx
      exact hrefs
    · rw [acquireHandle_some hid, Handle.acquire_disposed hmarked, setHandle_same hp.nodup hid]

theorem Sound.lt_of_connected {p : Pool σ} {history : List RefEvent} (hp : p.Sound history)
    {id : ClusterId} (h : .connected id ∈ p.events) : id < p.nextId := by
  by_contra hge
  have hzero := congrArg Marks.connected (hp.later id (Nat.le_of_not_lt hge)).2.1
  exact List.count_eq_zero.mp hzero h

theorem Sound.lt_of_built {p : Pool σ} {history : List RefEvent} (hp : p.Sound history)
    {id : ClusterId} (h : .built id ∈ p.events) : id < p.nextId := by
  by_contra hge
  have hzero := congrArg Marks.built (hp.later id (Nat.le_of_not_lt hge)).2.1
  exact List.count_eq_zero.mp hzero h

theorem Sound.lt_of_disposal {p : Pool σ} {history : List RefEvent} (hp : p.Sound history)
    {id : ClusterId} (h : .released id true ∈ history) : id < p.nextId := by
  by_contra hge
  have hzero := congrArg Tally.disposals (hp.later id (Nat.le_of_not_lt hge)).2.2
  exact List.count_eq_zero.mp hzero h

theorem Sound.stages {p : Pool σ} {history : List RefEvent} (hp : p.Sound history)
    (htethered : p.Tethered) {id : ClusterId} (hid : id < p.nextId) :
    (.connected id ∉ p.events ∧ .released id true ∉ history ∧
        p.events.count (.sessionClosed id) = 0 ∧ p.events.count (.clusterClosed id) = 1) ∨
      .connected id ∈ p.events ∧ ∃ s, p.IsAt history id s := by
  -- The cases of the account need its indices as variables.
  have ha := hp.account id hid
  generalize hm : Marks.of p.events id = m at ha
  generalize ht : Tally.of history id = t at ha
  generalize hh : p.handle? id = handle at ha
  have hconnected : p.events.count (.connected id) = m.connected := congrArg Marks.connected hm
  have hsession : p.events.count (.sessionClosed id) = m.sessionClosed :=
    congrArg Marks.sessionClosed hm
  have hcluster : p.events.count (.clusterClosed id) = m.clusterClosed :=
    congrArg Marks.clusterClosed hm
  have hdisposals : history.count (.released id true) = t.disposals := congrArg Tally.disposals ht
  cases ha with
  | failed =>
    exact .inl ⟨List.count_eq_zero.mp hconnected, List.count_eq_zero.mp hdisposals, hsession, hcluster⟩
  | live counted nonneg kept =>
    refine .inr ⟨List.count_pos_iff.mp (hconnected ▸ Nat.one_pos), .live, ⟨_, hh, ?_, nonneg, ?_⟩,
      hdisposals, hsession, hcluster⟩
    · rw [outstanding, ht]
      exact counted
    · intro hmem
      have hpos : 0 < (Tally.of history id).acquired := List.count_pos_iff.mpr hmem
      rw [ht] at hpos
      exact kept hpos
  | disposed marked =>
    obtain ⟨hrefs, hacquire, hrelease⟩ := refuses_of_marked hp (hh ▸ marked)
    exact .inr ⟨List.count_pos_iff.mp (hconnected ▸ Nat.one_pos), .disposed, hrefs, hacquire, hrelease,
      hdisposals, hsession, hcluster⟩
  | dropped =>
    exact .inr ⟨List.count_pos_iff.mp (hconnected ▸ Nat.one_pos), .dropped, hh, htethered.not_held hh,
      hdisposals, hsession, hcluster⟩

theorem Sound.disposed {p : Pool σ} {history : List RefEvent} (hp : p.Sound history)
    (htethered : p.Tethered) {id : ClusterId} (h : .released id true ∈ history) :
    p.IsAt history id .disposed := by
  rcases hp.stages htethered (hp.lt_of_disposal h) with ⟨-, hnot, -⟩ | ⟨-, stage, hs⟩
  · exact absurd h hnot
  · cases stage with
    | live => exact absurd h (List.count_eq_zero.mp hs.2.1)
    | disposed => exact hs
    | dropped => exact absurd h (List.count_eq_zero.mp hs.2.2.1)

theorem prefix_run (b : Backend σ) (backend : σ) {before calls : List PoolCall}
    (h : before <+: calls) : (run b backend before).1 <+: (run b backend calls).1 := by
  obtain ⟨rest, rfl⟩ := h
  induction rest using List.reverseRecOn with
  | nil => exact (List.append_nil before).symm ▸ List.prefix_refl (run b backend before).1
  | append_singleton rest call ih =>
    rw [← List.append_assoc, run_append_one]
    exact ih.trans (List.prefix_append _ _)

/-! ## Few references -/

theorem count_givenBack (p : Pool σ) (i id : ClusterId) :
    (p.givenBack i).count (.acquired id) = 0 := by
  unfold givenBack
  split
  · split
    · simp
    · rfl
  · rfl

theorem count_givenBackAs (p : Pool σ) (name : String) (id : ClusterId) :
    (p.givenBackAs name).count (.acquired id) = 0 := by
  unfold givenBackAs givenBackBy
  split
  · split
    · exact count_givenBack p _ id
    · rfl
  · rfl

theorem count_perform_le (b : Backend σ) (p : Pool σ) (call : PoolCall) (id : ClusterId) :
    (p.perform b call).1.count (.acquired id) ≤ 1 := by
  have one : ∀ l : List RefEvent, l.length ≤ 1 → l.count (.acquired id) ≤ 1 :=
    fun l hl => Nat.le_trans List.count_le_length hl
  cases call with
  | load | invalidate | dropName => exact Nat.zero_le _
  | acquire name key =>
    refine one _ ?_
    simp only [perform, acquisition]
    split <;> simp
  | take holder =>
    refine one _ ?_
    simp only [perform, taken]
    split
    · split <;> simp
    · simp
  | giveBack holder =>
    simp only [perform]
    split
    · rw [count_givenBack]
      exact Nat.zero_le _
    · exact Nat.zero_le _
  | share name holder =>
    simp only [perform]
    split <;> exact Nat.zero_le _
  | connect name key options =>
    simp only [perform]
    split
    · rw [List.count_append, count_givenBackAs]
      refine one _ ?_
      rw [List.length_map]
      exact Option.length_toList_le
    · exact Nat.zero_le _
  | close name | dropConnection name =>
    simp only [perform]
    rw [count_givenBackAs]
    exact Nat.zero_le _

theorem count_run_le (b : Backend σ) (backend : σ) (calls : List PoolCall) (id : ClusterId) :
    (run b backend calls).1.count (.acquired id) ≤ calls.length := by
  induction calls using List.reverseRecOn with
  | nil => exact Nat.zero_le _
  | append_singleton calls call ih =>
    rw [run_append_one, List.count_append, List.length_append]
    exact Nat.add_le_add ih (count_perform_le b _ call id)

/-- It takes many calls to run out of references. -/
theorem roomy_of_length (b : Backend σ) (backend : σ) {calls : List PoolCall}
    (h : calls.length < 2147483647) : Roomy b backend calls := by
  intro before hbefore id
  have hcount := count_run_le b backend before id
  have hlength := hbefore.length_le
  have houtstanding : outstanding (run b backend before).1 id ≤
      (run b backend before).1.count (.acquired id) := by
    unfold outstanding
    exact Int.sub_le_self _ (Int.natCast_nonneg _)
  omega

/-! ## Whole runs -/

theorem Sound.closed_of_none {p : Pool σ} {history : List RefEvent} (hp : p.Sound history)
    {id : ClusterId} (hnone : p.handle? id = none) (h : .connected id ∈ p.events) :
    p.Closed id 1 := by
  have hconnected : 0 < (Marks.of p.events id).connected := List.count_pos_iff.mpr h
  have ha := hp.account id (hp.lt_of_connected h)
  rw [hnone] at ha
  exact ha.closed_of_none hconnected

/-- Every handle that was built is live, disposed or dropped, and a disposed one stays so. What was
opened and is not live was closed; at the end that is everything. -/
theorem sessions_accounted {b : Backend σ} {backend : σ} {calls : List PoolCall}
    (h : Roomy b backend calls) :
    let history := (run b backend calls).1
    let p := (run b backend calls).2
    (∀ id, .connected id ∈ p.events → ∃! stage, p.IsAt history id stage) ∧
      (∀ id, .built id ∈ p.events → .connected id ∉ p.events →
        p.events.count (.sessionClosed id) = 0 ∧ p.events.count (.clusterClosed id) = 1) ∧
      (∀ before, before <+: calls → ∀ id,
        (run b backend before).2.IsAt (run b backend before).1 id .disposed →
          p.IsAt history id .disposed) ∧
      (p.counts.connects = p.counts.sessionCloses + p.live.length ∧
        p.counts.builds = p.counts.clusterCloses + p.live.length) ∧
      (∀ id, .connected id ∈ p.finish.events → p.finish.Closed id 1) ∧
      p.finish.counts.sessionCloses = p.finish.counts.connects ∧
      p.finish.counts.clusterCloses = p.finish.counts.builds := by
  intro history p
  have hsound : p.Sound history := sound_run h
  have htethered : p.Tethered := tethered_run b backend calls
  obtain ⟨more, hfinish⟩ := hsound.finish
  have hempty := handles_finish p
  refine ⟨?_, ?_, ?_, hsound.totals, ?_, ?_⟩
  · intro id hid
    rcases hsound.stages htethered (hsound.lt_of_connected hid) with ⟨hnot, -⟩ | ⟨-, stage, hstage⟩
    · exact absurd hid hnot
    · exact ⟨stage, hstage, fun other hother => isAt_unique hother hstage⟩
  · intro id hbuilt hnot
    rcases hsound.stages htethered (hsound.lt_of_built hbuilt) with ⟨-, -, hclosed⟩ | ⟨hid, -⟩
    · exact hclosed
    · exact absurd hid hnot
  · -- The release that disposed it stays in the history.
    intro before hbefore id hid
    have hreleased : .released id true ∈ (run b backend before).1 := by
      rw [← List.count_pos_iff, hid.2.2.2.1]
      exact Nat.one_pos
    exact hsound.disposed htethered ((prefix_run b backend hbefore).subset hreleased)
  · intro id hid
    refine hfinish.closed_of_none ?_ hid
    rw [handle?, hempty]
    rfl
  · have hlive : p.finish.live = [] := by
      unfold live
      rw [hempty]
      rfl
    obtain ⟨hconnects, hbuilds⟩ := hfinish.totals
    rw [hlive] at hconnects hbuilds
    exact ⟨hconnects.symm, hbuilds.symm⟩

/-- A handle that three holders share and the last of them disposes, one that is dropped, and a
host without sessions. -/
theorem sessions_accounted_three_hosts :
    let b := Script.backend ⟨[], false⟩
    let plan : List PlannedFailure := [⟨"c", .connect, 1, .connectionFailed "down"⟩]
    let first := Params.ofList [("host", "a")]
    let second := Params.ofList [("host", "b")]
    let calls : List PoolCall :=
      [.connect "one" first .default, .acquire "two" first, .share "three" (.name "two"),
        .load "four" second, .take (.name "four"), .invalidate second, .dropName "four",
        .connect "five" (Params.ofList [("host", "c")]) .default,
        .close "one", .giveBack (.name "three"), .giveBack (.name "two")]
    let history := (run b plan calls).1
    let p := (run b plan calls).2
    Roomy b plan calls ∧ .connected 0 ∈ p.events ∧ (∃! stage, p.IsAt history 0 stage) ∧
      history.count (.released 0 true) = 1 ∧ p.handle? 1 = none ∧ p.counts = ⟨3, 2, 0, 2, 3⟩ ∧
      p.finish.counts.sessionCloses = p.finish.counts.connects := by
  intro b plan first second calls history p
  have hroomy : Roomy b plan calls := roomy_of_length b plan (by decide)
  have hconnected : .connected 0 ∈ p.events := by decide
  obtain ⟨hstage, -, -, -, -, hsessions, -⟩ := sessions_accounted hroomy
  exact ⟨hroomy, hconnected, hstage 0 hconnected, by decide, by decide, by decide, hsessions⟩

end Pool

end WideRow
