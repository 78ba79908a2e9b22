import WideRow.Proofs.Coherence
import WideRow.Proofs.PoolSteps

/-!
# Opening that fails

Whoever cannot have a session has changed nothing that others share. A cluster that was built on the
way is closed again, and the next one to ask for the same parameters starts anew.
-/

namespace WideRow.Pool

variable {σ : Type}

/-! ## What is told -/

/-- What is told of an error of who offers clusters. -/
inductive Told : ClientError → ClientError → Prop
  | failed (reason : String) : Told (.connectionFailed reason) (.connectionFailed reason)
  | passed (cause : ConfigError) : Told (.invalidConfig cause) (.invalidConfig cause)
  | wrapped {error : ClientError} (hfailed : ∀ reason, error ≠ .connectionFailed reason)
      (hpassed : ∀ cause, error ≠ .invalidConfig cause) :
      Told error (.connectionFailed error.message)

theorem told_connectionFailure (error : ClientError) : Told error (connectionFailure error) := by
  cases error with
  | connectionFailed reason => exact .failed reason
  | invalidConfig cause => exact .passed cause
  | _ => exact .wrapped nofun nofun

/-- Why no session could be had with the error `e`, and what happened to clusters meanwhile. -/
inductive Failure (b : Backend σ) (key : Params) (p q : Pool σ) (e : ClientError) : Prop
  | invalid {cause : ConfigError} (hconfig : SessionConfig.ofParams key = .error cause)
      (htold : e = .invalidConfig cause) (huntouched : q = p)
  | unbuilt {config : SessionConfig} {error : ClientError}
      (hconfig : SessionConfig.ofParams key = .ok config)
      (hbuild : (b.build config p.backend).1 = .error error) (htold : Told error e)
      (hevents : q.events = p.events) (hnext : q.nextId = p.nextId)
  | unconnected {config : SessionConfig} {error : ClientError} {between : σ}
      (hconfig : SessionConfig.ofParams key = .ok config)
      (hbuild : b.build config p.backend = (.ok (), between))
      (hconnect : (b.connect config between).1 = .error error) (htold : Told error e)
      (hclosed : Marks.of q.events p.nextId = ⟨1, 0, 0, 1⟩)
      (hothers : ∀ id, id ≠ p.nextId → Marks.of q.events id = Marks.of p.events id)

/-- A pool `q` that a failure has left of the pool `p`. -/
structure LeavesNoTrace (b : Backend σ) (key : Params) (p q : Pool σ) (e : ClientError) : Prop where
  /-- The slots, and what was counted. -/
  cache : q.cache = p.cache
  handles : q.handles = p.handles
  named : q.named = p.named
  connections : q.connections = p.connections
  cause : Failure b key p q e
  /-- The rounds of the look-up have come to an end, and to this one. -/
  rounds : Loads b key p.cache.toSlotTable p (.error e, q.cache.toSlotTable, q)
  /-- The empty slot that was put there for others to wait is gone. -/
  slot : ∃ address t, p.cache.enter key = (address, t) ∧ t.slot? key = some (.empty address) ∧
    t.giveUp key address = q.cache.toSlotTable
  again (later : Backend σ) : (q.lookup later key).missed = true ∧
    (q.load later key).1 = (q.buildHandle later key).1 ∧
    { (q.load later key).2 with cache := q.cache } = (q.buildHandle later key).2

/-! ## Each way to open -/

theorem Regular.marks_next {p : Pool σ} (hp : p.Regular) :
    Marks.of p.events p.nextId = ⟨0, 0, 0, 0⟩ := by
  have hnone (kind : ClusterId → ClusterEvent) (hkind : (kind p.nextId).cluster = p.nextId) :
      p.events.count (kind p.nextId) = 0 := by
    rw [List.count_eq_zero]
    intro hmem
    have hlt := hp.noted _ hmem
    rw [hkind] at hlt
    exact Nat.lt_irrefl _ hlt
  simp only [Marks.of, hnone .built rfl, hnone .connected rfl, hnone .sessionClosed rfl,
    hnone .clusterClosed rfl]

theorem Regular.find?_of_invalid {p : Pool σ} (hp : p.Regular) {key : Params} {cause : ConfigError}
    (hconfig : SessionConfig.ofParams key = .error cause) : p.cache.find? key = none := by
  cases hfind : p.cache.find? key with
  | none => rfl
  | some id =>
    obtain ⟨config, hok⟩ := hp.configured _ (SessionCache.mem_of_find? hfind)
    rw [hconfig] at hok
    cases hok

section

variable {b : Backend σ} {key : Params} {p : Pool σ} {e : ClientError}

theorem load_again (hmiss : p.cache.find? key = none) (later : Backend σ) :
    (p.lookup later key).missed = true ∧ (p.load later key).1 = (p.buildHandle later key).1 ∧
      { (p.load later key).2 with cache := p.cache } = (p.buildHandle later key).2 := by
  have hcache := cache_buildHandle later key p
  rw [load_miss hmiss, loadFresh]
  refine ⟨by simp [lookup, SlotTable.contains, hmiss], ?_⟩
  cases hbuild : p.buildHandle later key with
  | mk answer q =>
    rw [hbuild] at hcache
    simp only at hcache
    cases answer <;> simp [← hcache]

theorem failure_load (hp : p.Regular) (hmiss : p.cache.find? key = none)
    (h : (p.load b key).1 = .error e) :
    let q := (p.load b key).2
    Failure b key p q e ∧ q.cache = p.cache ∧ q.handles = p.handles ∧ q.named = p.named ∧
      q.connections = p.connections := by
  have hbuilds := builds_loadFresh b key p
  rw [load_miss hmiss] at h ⊢
  generalize p.loadFresh b key = outcome at hbuilds h
  cases hbuilds with
  | invalid hconfig =>
    cases h
    exact ⟨.invalid hconfig rfl rfl, rfl, rfl, rfl, rfl⟩
  | unbuilt hconfig hbuild =>
    cases h
    refine ⟨?_, rfl, rfl, rfl, rfl⟩
    exact .unbuilt hconfig (congrArg Prod.fst hbuild) (told_connectionFailure _) rfl rfl
  | unconnected hconfig hbuild hconnect =>
    cases h
    refine ⟨?_, rfl, rfl, rfl, rfl⟩
    refine .unconnected hconfig hbuild (congrArg Prod.fst hconnect) (told_connectionFailure _)
      (marks_failed hp.marks_next) fun id hid => ?_
    simp [Marks.of, Ne.symm hid]
  | connected => cases h

theorem leavesNoTrace_load (hp : p.Regular) (h : (p.load b key).1 = .error e) :
    LeavesNoTrace b key p (p.load b key).2 e := by
  have hmiss : p.cache.find? key = none := by
    cases hfind : p.cache.find? key with
    | none => rfl
    | some id =>
      rw [load_hit hfind] at h
      cases h
  obtain ⟨hcause, hcache, hhandles, hnamed, hconnections⟩ := failure_load hp hmiss h
  have hslot := slot?_of_find? p.cache.settled hmiss
  refine ⟨hcache, hhandles, hnamed, hconnections, hcause, ?rounds, ?slot, ?again⟩
  case rounds =>
    rw [loads_load, h, ← hcache]
  case slot =>
    refine ⟨_, _, SlotTable.enter_of_none hslot, SlotTable.slot?_put key _ _, ?_⟩
    rw [SlotTable.giveUp_put hslot, hcache]
  case again =>
    rw [← hcache] at hmiss
    exact load_again hmiss

theorem LeavesNoTrace.miss {q : Pool σ} (h : LeavesNoTrace b key p q e) :
    p.cache.find? key = none := by
  cases hfind : p.cache.find? key with
  | none => rfl
  | some id =>
    have hround := loads_iff.mp h.rounds
    rw [loadRound_of_find? p.cache.settled hfind] at hround
    cases hround

theorem acquire_error (hmiss : p.cache.find? key = none) (h : (p.acquire b key).1 = .error e) :
    p.acquire b key = p.load b key := by
  rcases round_of_miss (b := b) hmiss with ⟨error, q, hload⟩ | ⟨id, q, r, hload, htake⟩
  · rw [(acquire_failed hload).1, hload]
  · rw [(acquire_taken hload htake).1] at h
    cases h

theorem leavesNoTrace_acquire_iff (hp : p.Regular) (h : (p.acquire b key).1 = .error e) :
    LeavesNoTrace b key p (p.acquire b key).2 e ↔ p.cache.find? key = none := by
  constructor
  · exact LeavesNoTrace.miss
  · intro hmiss
    have hload := acquire_error hmiss h
    rw [hload] at h ⊢
    exact leavesNoTrace_load hp h

theorem miss_of_acquire (hlive : p.Coherent fun h => h.isDisposed = false)
    (h : (p.acquire b key).1 = .error e) : p.cache.find? key = none := by
  cases hfind : p.cache.find? key with
  | none => rfl
  | some id =>
    obtain ⟨x, hid, -, hx⟩ := hlive.serves _ (SessionCache.mem_of_find? hfind)
    rw [(acquire_shared hfind hid hx).1] at h
    cases h

theorem LeavesNoTrace.swept {q : Pool σ} (h : LeavesNoTrace b key p q e) (hp : p.Swept) :
    q.Swept := by
  unfold Swept ids isHeld at hp ⊢
  rw [h.handles, h.cache, h.named, h.connections]
  exact hp

theorem connect_error {options : CursorOptions} (h : (p.connect b key options).1 = .error e) :
    (p.acquire b key).1 = .error e ∧ (p.connect b key options).2 = (p.acquire b key).2.sweep := by
  unfold connect at h ⊢
  cases hacquire : p.acquire b key with
  | mk answer q =>
    rw [hacquire] at h
    cases answer with
    | ok id => cases h
    | error error =>
      cases h
      exact ⟨rfl, rfl⟩

theorem leavesNoTrace_connect_iff (hp : p.Regular) (hswept : p.Swept) {options : CursorOptions}
    (h : (p.connect b key options).1 = .error e) :
    LeavesNoTrace b key p (p.connect b key options).2 e ↔ p.cache.find? key = none := by
  obtain ⟨hacquire, hsweep⟩ := connect_error h
  constructor
  · exact LeavesNoTrace.miss
  · intro hmiss
    have hleft := (leavesNoTrace_acquire_iff hp hacquire).mpr hmiss
    rw [hsweep, sweep_of_swept (hleft.swept hswept)]
    exact hleft

theorem load_invalid (hp : p.Regular) {cause : ConfigError}
    (hconfig : SessionConfig.ofParams key = .error cause) :
    p.load b key = (.error (.invalidConfig cause), p) := by
  rw [load_miss (hp.find?_of_invalid hconfig), loadFresh, buildHandle, hconfig]

theorem Coherent.query {good : Handle → Prop} (hp : p.Coherent good) (c : Connection)
    (text : String) : (p.query b c text).2.Coherent good := by
  unfold Pool.query execute
  split
  · simp only
    split
    · exact hp.congr rfl rfl (Nat.le_refl _)
    · exact hp
  · exact hp

theorem Reached.live {backend : σ} (h : Reached b backend Room p) :
    p.Coherent fun h => h.isDisposed = false := by
  induction h with
  | start => exact coherent_start _
  | call _ hroom call ih =>
    exact ih.perform Handle.lasting_live (fun id => keeps_live (hroom id)) b call
  | query _ c text ih => exact ih.query c text

end

/-- In every pool that calls and queries lead to: where parameters cannot be loaded, the cache with
its slots, all handles and all holders are as before, a cluster that was built has been closed, and
the next attempt builds anew. The same where a reference or a connection cannot be had, exactly if
nothing was cached; and nothing was, as long as no count overflows. Where parameters are invalid,
nothing at all has happened, whoever offers the clusters. -/
theorem failed_open_leaves_no_trace (b : Backend σ) (backend : σ) (key : Params) :
    (∀ fit p e, Reached b backend fit p → (p.load b key).1 = .error e →
      LeavesNoTrace b key p (p.load b key).2 e) ∧
    (∀ fit p e, Reached b backend fit p → (p.acquire b key).1 = .error e →
      (LeavesNoTrace b key p (p.acquire b key).2 e ↔ p.cache.find? key = none)) ∧
    (∀ fit p e options, Reached b backend fit p → (p.connect b key options).1 = .error e →
      (LeavesNoTrace b key p (p.connect b key options).2 e ↔ p.cache.find? key = none)) ∧
    (∀ p e, Reached b backend Room p → (p.acquire b key).1 = .error e →
      LeavesNoTrace b key p (p.acquire b key).2 e) ∧
    (∀ p e options, Reached b backend Room p → (p.connect b key options).1 = .error e →
      LeavesNoTrace b key p (p.connect b key options).2 e) ∧
    ∀ fit p cause, Reached b backend fit p → SessionConfig.ofParams key = .error cause →
      ∀ other : Backend σ, p.load other key = (.error (.invalidConfig cause), p) ∧
        p.acquire other key = (.error (.invalidConfig cause), p) ∧
        ∀ options, p.connect other key options = (.error (.invalidConfig cause), p) := by
  refine ⟨?load, ?acquire, ?connect, ?acquireRoom, ?connectRoom, ?invalid⟩
  case load =>
    rintro fit p e hp h
    exact leavesNoTrace_load hp.regular h
  case acquire =>
    rintro fit p e hp h
    exact leavesNoTrace_acquire_iff hp.regular h
  case connect =>
    rintro fit p e options hp h
    exact leavesNoTrace_connect_iff hp.regular hp.swept h
  case acquireRoom =>
    rintro p e hp h
    exact (leavesNoTrace_acquire_iff hp.regular h).mpr (miss_of_acquire hp.live h)
  case connectRoom =>
    rintro p e options hp h
    have hmiss := miss_of_acquire hp.live (connect_error h).1
    exact (leavesNoTrace_connect_iff hp.regular hp.swept h).mpr hmiss
  case invalid =>
    rintro fit p cause hp hconfig other
    have hload := load_invalid (b := other) hp.regular hconfig
    have hacquire := (acquire_failed hload).1
    refine ⟨hload, hacquire, fun options => ?_⟩
    rw [connect, hacquire]
    simp only [sweep_of_swept hp.swept]

/-- Beside one connection: a cluster that is not built, one that gets no session, and parameters
without a host. -/
theorem failed_open_leaves_no_trace_each_way :
    let b := Script.backend ⟨[], false⟩
    let plan : List PlannedFailure :=
      [⟨"a", .build, 1, .queryFailed "down"⟩, ⟨"b", .connect, 1, .connectionFailed "down"⟩]
    let unbuilt := Params.ofList [("host", "a")]
    let unconnected := Params.ofList [("host", "b")]
    let missing : ClientError := .invalidConfig (.missing "host")
    let p := ((start plan).perform b (.connect "one" (.ofList [("host", "c")]) .default)).2
    LeavesNoTrace b unbuilt p (p.load b unbuilt).2 (.connectionFailed "query failed: down") ∧
      LeavesNoTrace b unconnected p (p.acquire b unconnected).2 (.connectionFailed "down") ∧
      LeavesNoTrace b unconnected p (p.connect b unconnected .default).2
        (.connectionFailed "down") ∧
      p.connect b .empty .default = (.error missing, p) ∧ p.cache.size = 1 := by
  intro b plan unbuilt unconnected missing p
  have hp : Reached b plan Room p := Reached.start.call (fun _ _ h => by cases h) _
  obtain ⟨hload, -⟩ := failed_open_leaves_no_trace b plan unbuilt
  obtain ⟨-, -, -, hacquire, hconnect, -⟩ := failed_open_leaves_no_trace b plan unconnected
  obtain ⟨-, -, -, -, -, hinvalid⟩ := failed_open_leaves_no_trace b plan .empty
  refine ⟨hload _ _ _ hp ?_, hacquire _ _ hp ?_, hconnect _ _ _ hp ?_,
    (hinvalid _ _ _ hp ?_ b).2.2 _, ?_⟩
  · decide +kernel
  · decide +kernel
  · decide +kernel
  · rfl
  · decide

theorem acquire_disposed {b : Backend σ} {key : Params} {p : Pool σ} {id : ClusterId} {x : Handle}
    (hfind : p.cache.find? key = some id) (hid : p.handle? id = some x)
    (hdisposed : x.isDisposed = true) :
    p.acquire b key = { p.setHandle id x with cache := p.cache.hit.remove key }.acquire b key := by
  have htake : { p with cache := p.cache.hit }.acquireHandle id =
      (false, { p with cache := p.cache.hit }.setHandle id x) :=
    refer_disposed (p := { p with cache := p.cache.hit }) hid hdisposed .take
  have hevict : p.cache.hit.evict key id = p.cache.hit.remove key :=
    SessionCache.evict_of_find? hfind
  rw [(acquire_again (load_hit hfind) htake).1, ← hevict]
  rfl

theorem cache_acquire_disposed {b : Backend σ} {key : Params} {p : Pool σ} {id : ClusterId}
    {x : Handle} {e : ClientError} (hfind : p.cache.find? key = some id)
    (hid : p.handle? id = some x) (hdisposed : x.isDisposed = true)
    (h : (p.acquire b key).1 = .error e) :
    (p.acquire b key).2.cache = p.cache.hit.remove key := by
  rw [acquire_disposed hfind hid hdisposed] at h ⊢
  -- The handle is taken out before another is built, and nothing comes in its place.
  have hfailed := acquire_error (p.cache.hit.find?_remove key) h
  rw [hfailed] at h ⊢
  generalize hrest : Pool.load b key _ = outcome at h ⊢
  obtain ⟨answer, q⟩ := outcome
  rcases cache_load hrest with ⟨id, rfl, -⟩ | ⟨error, -, hcache⟩ | ⟨id, rfl, -⟩
  · cases h
  · exact hcache
  · cases h

/-- Offers one cluster, and fails to build any other. -/
def oneCluster : Backend Bool where
  build _ taken := (if taken then .error (.connectionFailed "down") else .ok (), true)
  connect _ taken := (.ok (), taken)
  execute _ _ taken := (.ok (.single ⟨[], []⟩), taken)

theorem acquire_oneCluster {key : Params} {p : Pool Bool} {x y : Handle}
    (hkey : key = .ofList [("host", "a")])
    (hid : ((start false).perform oneCluster (.load "h" key)).2.handle? 0 = some x)
    (hp : p = ((start false).perform oneCluster (.load "h" key)).2.setHandle 0 y)
    (hdisposed : y.isDisposed = true) :
    let q := (p.acquire oneCluster key).2
    (p.acquire oneCluster key).1 = .error (.connectionFailed "down") ∧
      (p.cache.hits, p.cache.evictions, p.cache.size) = (0, 0, 1) ∧
      (q.cache.hits, q.cache.evictions, q.cache.size) = (1, 1, 0) := by
  intro q
  have hthere : p.handle? 0 = some y := by
    rw [hp]
    exact handle?_setHandle_self hid
  have hfind : p.cache.find? key = some 0 := by
    rw [hp, hkey]
    rfl
  have herror : (p.acquire oneCluster key).1 = .error (.connectionFailed "down") := by
    rw [acquire_disposed hfind hthere hdisposed, hp, hkey]
    rfl
  have hcache : q.cache = p.cache.hit.remove key :=
    cache_acquire_disposed hfind hthere hdisposed herror
  refine ⟨herror, ?_, ?_⟩
  · rw [hp, hkey]
    rfl
  · rw [hcache, hp, hkey]
    rfl

/-- A handle with one reference more than the count can hold looks disposed. Who acquires its
parameters removes it, and builds nothing in its place. -/
theorem failed_open_leaves_no_trace_overflow :
    let key := Params.ofList [("host", "a")]
    let calls : List PoolCall := .load "h" key :: List.replicate 2147483648 (.take (.name "h"))
    let p := (run oneCluster false calls).2
    let q := (p.acquire oneCluster key).2
    (p.acquire oneCluster key).1 = .error (.connectionFailed "down") ∧
      (p.cache.hits, p.cache.evictions, p.cache.size) = (0, 0, 1) ∧
      (q.cache.hits, q.cache.evictions, q.cache.size) = (1, 1, 0) := by
  intro key calls p
  obtain ⟨x, hid, hnone⟩ : ∃ x,
      ((start false).perform oneCluster (.load "h" key)).2.handle? 0 = some x ∧
        x.refs.toInt = 0 := ⟨_, rfl, rfl⟩
  obtain ⟨y, htaken, -, hrefs⟩ := run_overflow (.name "h") rfl hid hnone
  have hp : p = ((start false).perform oneCluster (.load "h" key)).2.setHandle 0 y := htaken
  have hdisposed : y.isDisposed = true := by
    rw [Handle.isDisposed_iff]
    omega
  exact acquire_oneCluster (p := p) rfl hid hp hdisposed

end WideRow.Pool
