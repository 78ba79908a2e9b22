import Mathlib.Logic.Relation
import WideRow.Proofs.Sessions

/-!
# Steps of a pool

Every call is a path of few small steps. What each of them keeps is kept by every call and every
query, and so in all pools that these lead to.
-/

namespace WideRow.Pool

variable {σ : Type}

/-! ## Small steps -/

inductive Step (b : Backend σ) (p : Pool σ) : Pool σ → Prop
  | build (key : Params) : Step b p (p.loadFresh b key).2
  | take (id : ClusterId) : Step b p (p.acquireHandle id).2
  | giveBack (id : ClusterId) : Step b p (p.releaseHandle id).2
  | lookUp (cache : SessionCache) (hentries : cache.entries ⊆ p.cache.entries) :
      Step b p { p with cache := cache }
  | rename (named : List (String × ClusterId)) (connections : List (String × Connection)) :
      Step b p { p with named := named, connections := connections }
  | sweep : Step b p p.sweep
  | query (id : ClusterId) (text : String) : Step b p (p.execute b id text).2

/-- Any number of small steps. -/
def Path (b : Backend σ) : Pool σ → Pool σ → Prop :=
  Relation.ReflTransGen (Step b)

section

variable {b : Backend σ}

theorem Step.path {p q : Pool σ} (h : Step b p q) : Path b p q :=
  .single h

theorem Path.sweep {p q : Pool σ} (h : Path b p q) : Path b p q.sweep :=
  h.tail .sweep

theorem path_load (key : Params) (p : Pool σ) : Path b p (p.load b key).2 := by
  rw [load_eq]
  split
  · exact Step.path (.lookUp p.cache.hit (List.Subset.refl _))
  · exact Step.path (.build key)

theorem Rounds.path {key : Params} {p : Pool σ} {lookups : List Lookup}
    {outcome : Result ClusterId × Pool σ} (h : Rounds b key p lookups outcome) :
    Path b p outcome.2 := by
  induction h with
  | @failed p q error hload =>
    have hpath := path_load (b := b) key p
    rwa [hload] at hpath
  | @taken p q r id hload htake =>
    have hpath := path_load (b := b) key p
    have hstep := Step.take (b := b) (p := q) id
    rw [hload] at hpath
    rw [htake] at hstep
    exact hpath.tail hstep
  | @again p q r id lookups outcome hload htake _ ih =>
    have hpath := path_load (b := b) key p
    have hstep := Step.take (b := b) (p := q) id
    rw [hload] at hpath
    rw [htake] at hstep
    have hevict := Step.lookUp (b := b) (p := r) (r.cache.evict key id)
      fun _ h => SessionCache.mem_evict h
    exact ((hpath.tail hstep).tail hevict).trans ih

theorem path_acquire (key : Params) (p : Pool σ) : Path b p (p.acquire b key).2 :=
  (rounds_acquire b key p).path

theorem Path.rename {p q : Pool σ} (h : Path b p q) (named : List (String × ClusterId))
    (connections : List (String × Connection)) :
    Path b p { q with named := named, connections := connections }.sweep :=
  Path.sweep (h.tail (.rename named connections))

theorem path_releaseConnection (c : Connection) (p : Pool σ) :
    Path b p (p.releaseConnection c).2 := by
  unfold releaseConnection
  split
  · exact Step.path (.giveBack _)
  · exact .refl

theorem path_nameConnection (name : String) (c : Connection) (p : Pool σ) :
    Path b p (p.nameConnection name c) := by
  unfold nameConnection
  split
  · exact (path_releaseConnection _ p).rename _ _
  · exact Path.rename .refl _ _

theorem path_perform (p : Pool σ) (call : PoolCall) : Path b p (p.perform b call).2 := by
  cases call with
  | load name key =>
    have hpath := path_load (b := b) key p
    simp only [perform, loadAs]
    cases hload : p.load b key with
    | mk answer q =>
      rw [hload] at hpath
      cases answer with
      | error error => exact hpath.sweep
      | ok id => exact hpath.rename _ _
  | acquire name key =>
    have hpath := path_acquire (b := b) key p
    simp only [perform, acquireAs]
    cases hacquire : p.acquire b key with
    | mk answer q =>
      rw [hacquire] at hpath
      cases answer with
      | error error => exact hpath.sweep
      | ok id => exact hpath.rename _ _
  | invalidate key => exact Path.sweep (Step.path (.lookUp _ fun _ h => SessionCache.mem_invalidate h))
  | take holder =>
    simp only [perform]
    split
    · exact (Step.path (.take _)).sweep
    · exact .refl
  | giveBack holder =>
    simp only [perform]
    split
    · exact (Step.path (.giveBack _)).sweep
    · exact .refl
  | share name holder =>
    simp only [perform]
    split
    · exact Path.rename .refl _ _
    · exact .refl
  | dropName name => exact Path.rename .refl _ _
  | connect name key options =>
    have hpath := path_acquire (b := b) key p
    simp only [perform, connect]
    cases hacquire : p.acquire b key with
    | mk answer q =>
      rw [hacquire] at hpath
      cases answer with
      | error error => exact hpath.sweep
      | ok id => exact hpath.trans (path_nameConnection name _ q)
  | close name =>
    simp only [perform, closeConnection]
    split
    · exact (path_releaseConnection _ p).rename _ _
    · exact .refl
  | dropConnection name =>
    simp only [perform, dropConnection]
    split
    · exact (path_releaseConnection _ p).rename _ _
    · exact .refl

theorem path_query (c : Connection) (text : String) (p : Pool σ) :
    Path b p (p.query b c text).2 := by
  unfold query
  split
  · exact Step.path (.query _ text)
  · exact .refl

/-! ## What every step keeps -/

theorem mem_events_closeAll {l : List (ClusterId × Handle)} {p : Pool σ} {event : ClusterEvent}
    (h : event ∈ (l.foldl (fun p entry => p.closeResources entry.1) p).events) :
    event ∈ p.events ∨ event.cluster ∈ l.map Prod.fst := by
  induction l generalizing p with
  | nil => exact .inl h
  | cons entry l ih =>
    rw [List.map_cons, List.mem_cons]
    rcases ih h with h | h
    · rcases List.mem_cons.mp h with rfl | h
      · exact .inr (.inl rfl)
      · rcases List.mem_cons.mp h with rfl | h
        · exact .inr (.inl rfl)
        · exact .inl h
    · exact .inr (.inr h)

/-- Only clusters that were numbered have handles and events, and only valid parameters are
cached. -/
structure Regular (p : Pool σ) : Prop where
  numbered : ∀ id ∈ p.ids, id < p.nextId
  noted : ∀ event ∈ p.events, event.cluster < p.nextId
  configured : ∀ entry ∈ p.cache.entries, ∃ config, SessionConfig.ofParams entry.1 = .ok config

theorem Regular.lt_of_handle {p : Pool σ} (hp : p.Regular) {id : ClusterId} {h : Handle}
    (hid : p.handle? id = some h) : id < p.nextId :=
  hp.numbered id (List.mem_map_of_mem (mem_of_lookup hid))

theorem Regular.build {p : Pool σ} (hp : p.Regular) (key : Params) :
    (p.loadFresh b key).2.Regular := by
  have hnoted : ∀ event ∈ p.events, event.cluster < p.nextId + 1 :=
    fun event h => Nat.lt_succ_of_lt (hp.noted event h)
  have hbuilds := builds_loadFresh b key p
  generalize p.loadFresh b key = outcome at hbuilds
  cases hbuilds with
  | invalid => exact hp
  | unbuilt => exact ⟨hp.numbered, hp.noted, hp.configured⟩
  | unconnected =>
    refine ⟨fun id h => Nat.lt_succ_of_lt (hp.numbered id h), ?_, hp.configured⟩
    simpa [ClusterEvent.cluster] using hnoted
  | @connected config _ _ hconfig =>
    refine ⟨?_, ?_, ?_⟩
    · rintro id hid
      rcases List.mem_cons.mp hid with rfl | hid
      · exact Nat.lt_succ_self _
      · exact Nat.lt_succ_of_lt (hp.numbered id hid)
    · simpa [ClusterEvent.cluster] using hnoted
    · rintro entry hentry
      rcases List.mem_cons.mp hentry with rfl | hentry
      · exact ⟨config, hconfig⟩
      · exact hp.configured entry hentry

theorem Regular.take {p : Pool σ} (hp : p.Regular) (id : ClusterId) :
    (p.acquireHandle id).2.Regular := by
  cases hid : p.handle? id with
  | none =>
    rw [acquireHandle_none hid]
    exact hp
  | some x =>
    rw [acquireHandle_some hid]
    exact ⟨(ids_setHandle p id _).symm ▸ hp.numbered, hp.noted, hp.configured⟩

theorem Regular.giveBack {p : Pool σ} (hp : p.Regular) (id : ClusterId) :
    (p.releaseHandle id).2.Regular := by
  cases hid : p.handle? id with
  | none =>
    rw [releaseHandle_none hid]
    exact hp
  | some x =>
    cases hx : x.release.1 with
    | false =>
      rw [releaseHandle_kept hid hx]
      exact ⟨(ids_setHandle p id _).symm ▸ hp.numbered, hp.noted, hp.configured⟩
    | true =>
      rw [releaseHandle_last hid hx]
      have hlt := hp.lt_of_handle hid
      refine ⟨(ids_setHandle p id x.release.2).symm ▸ hp.numbered, ?_,
        fun entry h => hp.configured entry (SessionCache.mem_evict h)⟩
      rintro event hevent
      rcases List.mem_cons.mp hevent with rfl | hevent
      · exact hlt
      · rcases List.mem_cons.mp hevent with rfl | hevent
        · exact hlt
        · exact hp.noted event hevent

theorem Regular.sweep {p : Pool σ} (hp : p.Regular) : p.sweep.Regular := by
  refine ⟨?_, ?_, (cache_sweep p).symm ▸ hp.configured⟩
  · rintro id hid
    rw [nextId_sweep]
    exact hp.numbered id (mem_ids_sweep.mp hid).1
  · rintro event hevent
    rw [nextId_sweep]
    rcases mem_events_closeAll (l := p.abandoned) hevent with h | h
    · exact hp.noted event h
    · obtain ⟨entry, hentry, heq⟩ := List.mem_map.mp h
      rw [← heq]
      exact hp.numbered _ (List.mem_map_of_mem (List.mem_filter.mp (List.mem_filter.mp hentry).1).1)

theorem Regular.query {p : Pool σ} (hp : p.Regular) (id : ClusterId) (text : String) :
    (p.execute b id text).2.Regular := by
  unfold execute
  split
  · rename_i h hid
    refine ⟨hp.numbered, ?_, hp.configured⟩
    rintro event hevent
    rcases List.mem_cons.mp hevent with rfl | hevent
    · exact hp.lt_of_handle hid
    · exact hp.noted event hevent
  · exact hp

theorem Regular.step {p q : Pool σ} (hp : p.Regular) (h : Step b p q) : q.Regular := by
  cases h with
  | build key => exact hp.build key
  | take id => exact hp.take id
  | giveBack id => exact hp.giveBack id
  | lookUp cache hentries =>
    exact ⟨hp.numbered, hp.noted, fun entry h => hp.configured entry (hentries h)⟩
  | rename named connections => exact ⟨hp.numbered, hp.noted, hp.configured⟩
  | sweep => exact hp.sweep
  | query id text => exact hp.query id text

theorem Regular.path {p q : Pool σ} (hp : p.Regular) (h : Path b p q) : q.Regular := by
  induction h with
  | refl => exact hp
  | tail _ hstep ih => exact ih.step hstep

/-! ## Nothing is left unheld -/

theorem sweep_of_swept {p : Pool σ} (h : p.Swept) : p.sweep = p := by
  have hheld : ∀ entry ∈ p.handles, p.isHeld entry.1 = true :=
    fun entry hentry => h entry.1 (List.mem_map_of_mem hentry)
  have hkept : (p.handles.filter fun entry => p.isHeld entry.1) = p.handles :=
    List.filter_eq_self.mpr hheld
  have hdropped : (p.handles.filter fun entry => !p.isHeld entry.1) = [] := by
    rw [List.filter_eq_nil_iff]
    rintro entry hentry
    simp [hheld entry hentry]
  unfold Pool.sweep
  simp only [hkept, hdropped, List.filter_nil, List.foldl_nil]

theorem Swept.nameConnection (name : String) (c : Connection) (p : Pool σ) :
    (p.nameConnection name c).Swept := by
  unfold Pool.nameConnection
  split <;> exact swept_sweep _

theorem Swept.perform {p : Pool σ} (hp : p.Swept) (call : PoolCall) :
    (p.perform b call).2.Swept := by
  cases call with
  | load name key =>
    simp only [Pool.perform, loadAs]
    split <;> exact swept_sweep _
  | acquire name key =>
    simp only [Pool.perform, acquireAs]
    split <;> exact swept_sweep _
  | invalidate key => exact swept_sweep _
  | take holder =>
    simp only [Pool.perform]
    split
    · exact swept_sweep _
    · exact hp
  | giveBack holder =>
    simp only [Pool.perform]
    split
    · exact swept_sweep _
    · exact hp
  | share name holder =>
    simp only [Pool.perform]
    split
    · exact swept_sweep _
    · exact hp
  | dropName name => exact swept_sweep _
  | connect name key options =>
    simp only [Pool.perform, connect]
    cases p.acquire b key with
    | mk answer q =>
      cases answer with
      | error error => exact swept_sweep q
      | ok id => exact Swept.nameConnection name _ q
  | close name =>
    simp only [Pool.perform, closeConnection]
    split
    · exact swept_sweep _
    · exact hp
  | dropConnection name => exact hp.dropConnection name

theorem Swept.query {p : Pool σ} (hp : p.Swept) (c : Connection) (text : String) :
    (p.query b c text).2.Swept := by
  unfold Pool.query execute
  split
  · simp only
    split <;> exact hp
  · exact hp

/-! ## What calls lead to -/

/-- The pools that calls and queries lead to, where calls are made on the pools that `fit`. -/
inductive Reached (b : Backend σ) (backend : σ) (fit : Pool σ → Prop) : Pool σ → Prop
  | start : Reached b backend fit (start backend)
  | call {p : Pool σ} (h : Reached b backend fit p) (hfit : fit p) (call : PoolCall) :
      Reached b backend fit (p.perform b call).2
  | query {p : Pool σ} (h : Reached b backend fit p) (c : Connection) (text : String) :
      Reached b backend fit (p.query b c text).2

theorem reached_run (b : Backend σ) (backend : σ) (calls : List PoolCall) :
    Reached b backend (fun _ => True) (run b backend calls).2 := by
  induction calls using List.reverseRecOn with
  | nil => exact .start
  | append_singleton calls call ih =>
    rw [run_append_one]
    exact ih.call trivial call

theorem Reached.regular {backend : σ} {fit : Pool σ → Prop} {p : Pool σ}
    (h : Reached b backend fit p) : p.Regular := by
  induction h with
  | start => exact ⟨nofun, nofun, nofun⟩
  | call _ _ call ih => exact ih.path (path_perform _ call)
  | query _ c text ih => exact ih.path (path_query c text _)

theorem Reached.swept {backend : σ} {fit : Pool σ → Prop} {p : Pool σ}
    (h : Reached b backend fit p) : p.Swept := by
  induction h with
  | start => exact nofun
  | call _ _ call ih => exact ih.perform call
  | query _ c text ih => exact ih.query c text

end

end WideRow.Pool
