import WideRow.Proofs.Roster
import WideRow.Proofs.Spelling
import WideRow.Session.Script

/-!
# Connections that share sessions

Connections share a session if they have the same parameters, however these were spelled. The
session is cached and open while one of them is, and who comes after the last gets a new one.
-/

namespace WideRow.Pool

variable {σ : Type}

/-- How many connections have a handle. -/
def users (p : Pool σ) (id : ClusterId) : Nat :=
  p.connections.countP fun entry => entry.2.handle == some id

/-- Nothing is different but what stands under the names of closed connections. -/
structure Undisturbed (p q : Pool σ) : Prop where
  backend : q.backend = p.backend
  events : q.events = p.events
  nextId : q.nextId = p.nextId
  handles : q.handles = p.handles
  cache : q.cache = p.cache
  held (holder : Holder) : q.held? holder = p.held? holder

/-- What the open connections of a roster share. -/
structure SharesByKey (p : Pool σ) (roster : Roster) : Prop where
  opened (name : String) :
    (p.held? (.connection name)).isSome = (roster.lookup name).isSome
  served {name : String} {key : Params} (h : roster.lookup name = some key) :
    p.held? (.connection name) = p.cache.find? key
  shared {name name' : String} {key key' : Params} (h : roster.lookup name = some key)
    (h' : roster.lookup name' = some key') :
    p.held? (.connection name) = p.held? (.connection name') ↔ key = key'
  /-- Of what was spelled, the last entry of each key counts. -/
  spelled {name name' : String} {entries entries' : List (String × String)}
    (h : roster.lookup name = some (.ofList entries))
    (h' : roster.lookup name' = some (.ofList entries')) :
    p.held? (.connection name) = p.held? (.connection name') ↔
      ∀ key, Params.setting entries key = Params.setting entries' key
  cached (key : Params) :
    p.cache.contains key = true ↔ ∃ name, roster.lookup name = some key
  counted {key : Params} {id : ClusterId} (hfind : p.cache.find? key = some id) :
    ∃ h, p.handle? id = some h ∧ h.key = key ∧ h.refs.toInt = p.users id
  closed {id : ClusterId} (h : .connected id ∈ p.events) :
    p.Closed id (if p.users id = 0 then 1 else 0)

/-- What it means to close a connection next. -/
structure ClosesLast (p : Pool σ) : Prop where
  last (name : String) : (p.closeConnection name).1 = true ↔
    ∃ id, p.held? (.connection name) = some id ∧ p.users id = 1
  idle {name : String} (h : p.held? (.connection name) = none) :
    Undisturbed p (p.closeConnection name).2 ∧ Undisturbed p (p.dropConnection name).2

/-- What it means to open a connection next. -/
structure OpensByKey (b : Backend σ) (p : Pool σ) (roster : Roster) : Prop where
  /-- Parameters with an open connection: its session is had, whatever the clusters are like. -/
  joins {name : String} {key : Params} (h : roster.lookup name = some key)
    (options : CursorOptions) :
    let outcome := p.connect b key options
    outcome.1 = .ok ⟨p.held? (.connection name), options⟩ ∧ outcome.2.backend = p.backend ∧
      outcome.2.events = p.events
  /-- Other parameters: a cluster is built, and its session is new. -/
  builds {key : Params} (h : ∀ name, roster.lookup name ≠ some key) (options : CursorOptions) :
    let outcome := p.connect b key options
    outcome.1 = (p.loadFresh b key).1.map (fun id => ⟨some id, options⟩) ∧
      ∀ c, outcome.1 = .ok c → c.handle = some p.nextId ∧
        outcome.2.events = .connected p.nextId :: .built p.nextId :: p.events ∧
        ∀ event ∈ p.events, event.cluster ≠ p.nextId
  /-- What is explicit counts as spelled behind an address. -/
  overrides (url explicit : List (String × String)) (options : CursorOptions) :
    p.connectWith b (.ofList url) (.ofList explicit) options =
      p.connect b (.ofList (url ++ explicit)) options

section

variable {b : Backend σ} {p : Pool σ} {roster : Roster} {name : String} {key : Params}
  {id : ClusterId}

/-! ## Counting users -/

theorem Seated.users_eq (hp : p.Seated roster) (hfind : p.cache.find? key = some id) :
    p.users id = roster.keys.count key := by
  have hcount : roster.keys.count key = roster.countP fun entry => entry.2 == key := by
    rw [List.count, Roster.keys, List.countP_map]
    rfl
  rw [hcount, users]
  refine Names.countP_eq (fun c => c.handle == some id) (· == key) hp.known hp.distinct
    fun name => ?_
  simp only [beq_iff_eq]
  rw [← Option.bind_eq_some_iff]
  constructor
  · intro hheld
    obtain ⟨k, hlookup, hid⟩ := hp.lookup_of_held hheld
    exact ⟨k, hlookup, hp.tallied.key_unique hid hfind⟩
  · rintro ⟨k, hlookup, rfl⟩
    obtain ⟨i, hheld, hi⟩ := hp.held hlookup
    rw [hfind] at hi
    cases hi
    exact hheld

theorem Seated.users_pos_of_cached (hp : p.Seated roster) (hfind : p.cache.find? key = some id) :
    0 < p.users id := by
  rw [hp.users_eq hfind, List.count_pos_iff]
  exact (hp.tallied.cached key).mp ⟨id, hfind⟩

theorem Seated.cached_of_users_pos (hp : p.Seated roster) (h : 0 < p.users id) :
    ∃ key, p.cache.find? key = some id := by
  obtain ⟨⟨n, c⟩, hmem, hid⟩ := List.countP_pos_iff.mp h
  have hheld : p.held? (.connection n) = some id := by
    rw [held?_connection, lookup_of_mem hp.known hmem]
    exact beq_iff_eq.mp hid
  obtain ⟨key, -, hfind⟩ := hp.lookup_of_held hheld
  exact ⟨key, hfind⟩

/-! ## What is shared -/

theorem mem_keys_iff (hn : (roster.map Prod.fst).Nodup) :
    key ∈ roster.keys ↔ ∃ name, roster.lookup name = some key := by
  constructor
  · intro hmem
    obtain ⟨⟨name, k⟩, hentry, rfl⟩ := List.mem_map.mp hmem
    exact ⟨name, lookup_of_mem hn hentry⟩
  · rintro ⟨name, hlookup⟩
    exact mem_keys hlookup

theorem Seated.closed (hp : p.Seated roster) {history : List RefEvent} (hsound : p.Sound history)
    (hbalanced : p.cache.Balanced) (hswept : p.Swept) (h : .connected id ∈ p.events) :
    p.Closed id (if p.users id = 0 then 1 else 0) := by
  by_cases hused : p.users id = 0
  · rw [if_pos hused]
    refine hsound.closed_of_none ?_ h
    -- A handle that is there is cached, and has users then.
    cases hid : p.handle? id with
    | none => rfl
    | some x =>
      obtain ⟨key, hfind⟩ := hp.find?_of_handle hbalanced hswept hid
      have := hp.users_pos_of_cached hfind
      omega
  · rw [if_neg hused]
    obtain ⟨key, hfind⟩ := hp.cached_of_users_pos (Nat.pos_of_ne_zero hused)
    obtain ⟨x, hid, hlive⟩ := hp.tallied.live hfind
    have hmarks := hsound.marks_of_live hid hlive
    exact ⟨congrArg Marks.sessionClosed hmarks, congrArg Marks.clusterClosed hmarks⟩

theorem Seated.held_eq_iff (hp : p.Seated roster) {name' : String} {key' : Params}
    (h : roster.lookup name = some key) (h' : roster.lookup name' = some key') :
    p.held? (.connection name) = p.held? (.connection name') ↔ key = key' := by
  obtain ⟨id, hheld, hfind⟩ := hp.held h
  obtain ⟨id', hheld', hfind'⟩ := hp.held h'
  rw [hheld, hheld', Option.some_inj]
  constructor
  · rintro rfl
    exact hp.tallied.key_unique hfind hfind'
  · rintro rfl
    rw [hfind'] at hfind
    cases hfind
    rfl

theorem Seated.sharesByKey (hp : p.Seated roster) {history : List RefEvent}
    (hsound : p.Sound history) (hbalanced : p.cache.Balanced) (hswept : p.Swept) :
    p.SharesByKey roster := by
  refine ⟨?opened, ?served, hp.held_eq_iff, ?spelled, ?cached, ?counted,
    hp.closed hsound hbalanced hswept⟩
  case opened =>
    intro name
    cases hname : roster.lookup name with
    | none =>
      rw [hp.seats name, hname]
      rfl
    | some key =>
      obtain ⟨id, hheld, -⟩ := hp.held hname
      rw [hheld]
      rfl
  case served =>
    rintro name key h
    rw [hp.seats name, h]
    rfl
  case spelled =>
    rintro name name' entries entries' h h'
    rw [hp.held_eq_iff h h', Params.ofList_eq_iff]
  case cached =>
    intro key
    rw [SlotTable.contains, Option.isSome_iff_exists, hp.tallied.cached key,
      mem_keys_iff hp.distinct]
  case counted =>
    rintro key id hfind
    rw [hp.users_eq hfind]
    exact hp.tallied.counted hfind

/-! ## Closing -/

theorem Seated.close_last (hp : p.Seated roster) (name : String) :
    (p.closeConnection name).1 = true ↔
      ∃ id, p.held? (.connection name) = some id ∧ p.users id = 1 := by
  have hanswer : (p.closeConnection name).1 = (p.vacate name).1 := by
    cases hc : p.connections.lookup name with
    | none => rw [Pool.closeConnection, vacate, hc]
    | some c => rw [closeConnection_eq hc]
  obtain ⟨-, -, hlast⟩ := Tallied.vacate [] hp.tallied hp.seats hp.distinct name
  rw [hanswer, hlast]
  have hcount {key : Params} (h : roster.lookup name = some key) :=
    (perm_keys hp.distinct h).count_eq key
  simp only [List.count_cons_self, List.nil_append] at hcount ⊢
  constructor
  · rintro ⟨key, hlookup, hnot⟩
    obtain ⟨id, hheld, hfind⟩ := hp.held hlookup
    refine ⟨id, hheld, ?_⟩
    rw [hp.users_eq hfind, hcount hlookup, List.count_eq_zero.mpr hnot]
  · rintro ⟨id, hheld, hone⟩
    obtain ⟨key, hlookup, hfind⟩ := hp.lookup_of_held hheld
    refine ⟨key, hlookup, List.count_eq_zero.mp ?_⟩
    rw [hp.users_eq hfind, hcount hlookup] at hone
    omega

theorem undisturbed_of_held (hswept : p.Swept) (hknown : (p.connections.map Prod.fst).Nodup)
    {connections : List (String × Connection)}
    (hheld : ∀ n, (connections.lookup n).bind Connection.handle = p.held? (.connection n)) :
    Undisturbed p { p with connections := connections }.sweep := by
  have hq : { p with connections := connections }.Swept := by
    rintro id hid
    rw [isHeld_iff]
    rcases isHeld_iff.mp (hswept id hid) with h | h | ⟨⟨n, c⟩, hmem, hc⟩
    · exact .inl h
    · exact .inr (.inl h)
    · have hn : (connections.lookup n).bind Connection.handle = some id := by
        rw [hheld n, held?_connection, lookup_of_mem hknown hmem]
        exact hc
      obtain ⟨c', hc', hid'⟩ := Option.bind_eq_some_iff.mp hn
      exact .inr (.inr ⟨(n, c'), mem_of_lookup hc', hid'⟩)
  rw [sweep_of_swept hq]
  refine ⟨rfl, rfl, rfl, rfl, rfl, fun holder => ?_⟩
  cases holder with
  | name n => rfl
  | connection n => exact hheld n

theorem Undisturbed.refl (p : Pool σ) : Undisturbed p p :=
  ⟨rfl, rfl, rfl, rfl, rfl, fun _ => rfl⟩

theorem undisturbed_close (hswept : p.Swept) (hknown : (p.connections.map Prod.fst).Nodup)
    (h : p.held? (.connection name) = none) : Undisturbed p (p.closeConnection name).2 := by
  cases hc : p.connections.lookup name with
  | none =>
    rw [closeConnection, hc]
    exact .refl p
  | some c =>
    rw [closeConnection_eq hc, vacate_of_not_held h]
    refine undisturbed_of_held hswept hknown fun n => ?_
    by_cases hne : n = name
    · rw [hne, h, Names.assign, lookup_cons_self]
      rfl
    · rw [Names.lookup_assign_other hne, held?_connection]

theorem undisturbed_drop (hswept : p.Swept) (hknown : (p.connections.map Prod.fst).Nodup)
    (h : p.held? (.connection name) = none) : Undisturbed p (p.dropConnection name).2 := by
  cases hc : p.connections.lookup name with
  | none =>
    rw [dropConnection, hc]
    exact .refl p
  | some c =>
    rw [dropConnection_eq hc, vacate_of_not_held h]
    refine undisturbed_of_held hswept hknown fun n => ?_
    by_cases hne : n = name
    · rw [hne, h, Names.lookup_remove_self]
      rfl
    · rw [Names.lookup_remove_other hne, held?_connection]

theorem Seated.closesLast (hp : p.Seated roster) (hswept : p.Swept) : p.ClosesLast :=
  ⟨hp.close_last, fun h => ⟨undisturbed_close hswept hp.known h, undisturbed_drop hswept hp.known h⟩⟩

/-! ## Opening -/

theorem Seated.joins (hp : p.Seated roster) (h : roster.lookup name = some key)
    (options : CursorOptions) :
    let outcome := p.connect b key options
    outcome.1 = .ok ⟨p.held? (.connection name), options⟩ ∧ outcome.2.backend = p.backend ∧
      outcome.2.events = p.events := by
  obtain ⟨id, hheld, hfind⟩ := hp.held h
  obtain ⟨x, hid, hlive⟩ := hp.tallied.live hfind
  rw [Pool.connect, (acquire_shared hfind hid hlive).1, hheld]
  exact ⟨rfl, rfl, rfl⟩

theorem Seated.builds (hp : p.Seated roster) (hregular : p.Regular) (hnot : key ∉ roster.keys)
    (options : CursorOptions) :
    let outcome := p.connect b key options
    outcome.1 = (p.loadFresh b key).1.map (fun id => ⟨some id, options⟩) ∧
      ∀ c, outcome.1 = .ok c → c.handle = some p.nextId ∧
        outcome.2.events = .connected p.nextId :: .built p.nextId :: p.events ∧
        ∀ event ∈ p.events, event.cluster ≠ p.nextId := by
  have hobtains := hp.tallied.obtains b key
  unfold Pool.connect
  generalize p.acquire b key = outcome at hobtains
  cases hobtains with
  | shared hfind hid => exact absurd ((hp.tallied.cached key).mp ⟨_, hfind⟩) hnot
  | built hmiss hbuilt =>
    rw [hbuilt]
    refine ⟨rfl, ?_⟩
    rintro c hc
    cases hc
    exact ⟨rfl, rfl, fun event hevent => Nat.ne_of_lt (hregular.noted event hevent)⟩
  | failed hmiss hfailed =>
    rw [hfailed]
    exact ⟨rfl, nofun⟩

theorem Seated.opensByKey (hp : p.Seated roster) (hregular : p.Regular) (b : Backend σ) :
    p.OpensByKey b roster := by
  refine ⟨hp.joins, fun h options => hp.builds hregular ?_ options, fun url explicit options => ?_⟩
  · rw [mem_keys_iff hp.distinct]
    rintro ⟨name, hlookup⟩
    exact h name hlookup
  · rw [connectWith, Params.merged_ofList]

end

/-- At every point of a run of connections that are opened, closed and dropped: the keys that are
cached are those of the open connections, connections share a handle exactly if their parameters are
equal, however spelled, and a session is closed exactly if no connection uses it. -/
theorem connections_share_sessions {b : Backend σ} {backend : σ} {calls : List ConnectionCall}
    (h : Uncrowded b backend calls) :
    let roster := (share b backend calls).1
    let p := (share b backend calls).2
    p.SharesByKey roster ∧ p.ClosesLast ∧ p.OpensByKey b roster := by
  intro roster p
  have hp : p.Seated roster := seated_share h
  have hbalanced : p.cache.Balanced := (coherent_share b backend calls).balanced
  have hreached : Reached b backend (fun _ => True) p := reached_share b backend calls
  obtain ⟨history, hsound⟩ : ∃ history, p.Sound history := sound_share h
  exact ⟨hp.sharesByKey hsound hbalanced hreached.swept, hp.closesLast hreached.swept,
    hp.opensByKey hreached.regular b⟩

/-- Two connections with one session, spelled in two ways, of which the first is closed twice; and
one that cannot be opened. When the second is dropped too, the session is closed, and the next one
is new. -/
theorem connections_share_sessions_spelled_twice :
    let b := Script.backend ⟨[], false⟩
    let plan : List PlannedFailure := [⟨"b", .build, 1, .queryFailed "down"⟩]
    let key := Params.ofList [("host", "a"), ("debug", "true")]
    let calls : List ConnectionCall :=
      [.connect "one" key .default,
        .connectWith "two" (.ofList [(" DEBUG ", "true"), ("host", "x")]) (.ofList [("Host", "a")])
          .default,
        .connect "three" (.ofList [("host", "b")]) .default, .close "one", .close "one"]
    let p := (share b plan calls).2
    let next : List ConnectionCall := calls ++ [.drop "two", .connect "four" key .default]
    let q := (share b plan next).2
    Uncrowded b plan calls ∧ p.cache.size = 1 ∧ p.cache.contains key = true ∧ p.Closed 0 0 ∧
      (p.closeConnection "two").1 = true ∧ Undisturbed p (p.closeConnection "one").2 ∧
      Uncrowded b plan next ∧ q.held? (.connection "four") = some 1 ∧ q.Closed 0 1 ∧ q.Closed 1 0 := by
  intro b plan key calls p next q
  have hcalls : Uncrowded b plan calls := uncrowded_of_length b plan (by decide)
  have hnext : Uncrowded b plan next := uncrowded_of_length b plan (by decide)
  obtain ⟨hp, hlast, -⟩ : p.SharesByKey (share b plan calls).1 ∧ p.ClosesLast ∧ _ :=
    connections_share_sessions hcalls
  obtain ⟨hq, -, -⟩ := connections_share_sessions hnext
  have hused : p.users 0 = 1 := by decide +kernel
  have hopened : p.Closed 0 (if p.users 0 = 0 then 1 else 0) := hp.closed (by decide +kernel)
  have hleft : q.users 0 = 0 := by decide +kernel
  have hclosed : q.Closed 0 (if q.users 0 = 0 then 1 else 0) := hq.closed (by decide +kernel)
  have hback : q.users 1 = 1 := by decide +kernel
  have hreopened : q.Closed 1 (if q.users 1 = 0 then 1 else 0) := hq.closed (by decide +kernel)
  rw [hused] at hopened
  rw [hleft] at hclosed
  rw [hback] at hreopened
  exact ⟨hcalls, by decide +kernel, (hp.cached key).mpr ⟨"two", by decide +kernel⟩, hopened,
    (hlast.last "two").mpr ⟨0, by decide +kernel, hused⟩, (hlast.idle (by decide +kernel)).1, hnext,
    by decide +kernel, hclosed, hreopened⟩

/-! ## Too many connections -/

section

variable {b : Backend σ} {p : Pool σ} {key : Params} {id : ClusterId} {x : Handle} {name : String}
  {options : CursorOptions}

theorem perform_connect_shared (hfind : p.cache.find? key = some id) (hid : p.handle? id = some x)
    (hlive : x.isDisposed = false) (hnew : p.connections.lookup name = none)
    (options : CursorOptions) :
    let q := (p.perform b (.connect name key options)).2
    q.cache.find? key = some id ∧ q.handle? id = some x.acquire.2 ∧
      q.connections = (name, ⟨some id, options⟩) :: p.connections := by
  intro q
  let joined : Pool σ :=
    { p.setHandle id x.acquire.2 with
      cache := p.cache.hit
      connections := (name, ⟨some id, options⟩) :: p.connections }
  have hassign : Names.assign name ⟨some id, options⟩ p.connections = joined.connections :=
    congrArg _ (Names.remove_of_lookup hnew)
  have hq : q = joined.sweep := by
    simp [q, joined, perform, connect, (acquire_shared (b := b) hfind hid hlive).1, nameConnection,
      setHandle, hnew, hassign]
  have hcached : joined.cache.find? key = some id := hfind
  have hthere : joined.handle? id = some x.acquire.2 := handle?_setHandle_self hid
  rw [hq, cache_sweep, connections_sweep, handle?_sweep_of_cached hcached]
  exact ⟨hcached, hthere, rfl⟩

/-- So many connections share a handle, and have the first names of some. -/
structure Crowd (names : Nat → String) (key : Params) (id : ClusterId) (n : Nat) (p : Pool σ) :
    Prop where
  cached : p.cache.find? key = some id
  counted : ∃ h, p.handle? id = some h ∧ h.refs.toInt = n
  used : p.users id = n
  unnamed : ∀ i, n ≤ i → p.connections.lookup (names i) = none

variable {names : Nat → String} {n : Nat}

theorem Crowd.joined (hp : Crowd names key id n p) (options : CursorOptions) :
    let q := (p.perform b (.connect (names n) key options)).2
    q.cache.find? key = some id ∧ q.users id = n + 1 ∧
      (∃ h : Handle, h.refs.toInt = n ∧ q.handle? id = some h.acquire.2) ∧
      q.connections = (names n, ⟨some id, options⟩) :: p.connections := by
  intro q
  obtain ⟨hfind, ⟨h, hid, hcount⟩, hused, hunnamed⟩ := hp
  have hlive : h.isDisposed = false := by
    rw [Handle.not_isDisposed_iff]
    omega
  obtain ⟨hfind', hid', hconnections⟩ := perform_connect_shared (b := b) hfind hid hlive
    (hunnamed n (Nat.le_refl n)) options
  refine ⟨hfind', ?_, ⟨h, hcount, hid'⟩, hconnections⟩
  unfold users at hused ⊢
  rw [hconnections, List.countP_cons_of_pos (by simp), hused]

theorem Crowd.connect (hp : Crowd names key id n p) (hnames : names.Injective)
    (hroom : n < 2147483647) :
    Crowd names key id (n + 1) (p.perform b (.connect (names n) key options)).2 := by
  obtain ⟨hfind, hused, ⟨h, hcount, hid⟩, hconnections⟩ := hp.joined (b := b) options
  refine ⟨hfind, ⟨h.acquire.2, hid, ?_⟩, hused, fun i hi => ?_⟩
  · rw [(Handle.acquire_live (by omega) (by omega)).2]
    omega
  · have hother : names i ≠ names n := fun heq => by
      have := hnames heq
      omega
    rw [hconnections, List.lookup_cons, beq_eq_false_iff_ne.mpr hother]
    exact hp.unnamed i (by omega)

theorem crowd_share {backend : σ} (hnames : names.Injective)
    (hfirst : Crowd names key id 1 (share b backend [.connect (names 0) key options]).2)
    (hpos : 0 < n) (hroom : n ≤ 2147483647) :
    Crowd names key id n
      (share b backend ((List.range n).map fun i => .connect (names i) key options)).2 := by
  induction n with
  | zero => cases hpos
  | succ n ih =>
    rcases Nat.eq_zero_or_pos n with rfl | hpos
    · exact hfirst
    · rw [List.range_succ, List.map_append, List.map_singleton, share_append_one]
      exact (ih hpos (by omega)).connect hnames (by omega)

/-- More connections share a handle than it can count. -/
structure Overcrowded (key : Params) (id : ClusterId) (p : Pool σ) : Prop where
  cached : p.cache.find? key = some id
  used : p.users id = 2147483648
  counted : ∃ h, p.handle? id = some h ∧ h.refs.toInt = -2147483648

theorem Crowd.overcrowded (hp : Crowd names key id n p) (hn : n = 2147483647) :
    Overcrowded key id (p.perform b (.connect (names n) key options)).2 := by
  obtain ⟨hfind, hused, ⟨h, hcount, hid⟩, -⟩ := hp.joined (b := b) options
  exact ⟨hfind, by omega, h.acquire.2, hid, (Handle.acquire_greatest (by omega)).2⟩

theorem overcrowded_share {backend : σ} (hnames : names.Injective)
    (hfirst : Crowd names key id 1 (share b backend [.connect (names 0) key options]).2)
    (hn : n = 2147483648) :
    Overcrowded key id
      (share b backend ((List.range n).map fun i => .connect (names i) key options)).2 := by
  obtain ⟨m, rfl⟩ : ∃ m, n = m + 1 := ⟨2147483647, hn⟩
  have hcrowd := crowd_share hnames hfirst (n := m) (by omega) (by omega)
  rw [List.range_succ, List.map_append, List.map_singleton, share_append_one]
  exact hcrowd.overcrowded (by omega)

theorem Overcrowded.not_sharesByKey (hp : p.Overcrowded key id) (roster : Roster) :
    ¬ p.SharesByKey roster := by
  intro hshares
  obtain ⟨h, hid, hcount⟩ := hp.counted
  obtain ⟨x, hx, -, hrefs⟩ := hshares.counted hp.cached
  rw [hid, Option.some_inj] at hx
  rw [← hx, hp.used, hcount] at hrefs
  omega

end

/-- One connection more than the count of references can hold, all of the same parameters. -/
theorem connections_share_sessions_overflow :
    let b := Script.backend ⟨[], false⟩
    let key := Params.ofList [("host", "a")]
    let names (i : Nat) := String.ofList (List.replicate i 'c')
    let calls : List ConnectionCall :=
      (List.range 2147483648).map fun i => .connect (names i) key .default
    let p := (share b [] calls).2
    p.Overcrowded key 0 ∧ ¬ p.SharesByKey (share b [] calls).1 := by
  intro b key names calls p
  have hnames : names.Injective := by
    intro i j h
    have hlength := congrArg String.length h
    simpa [names] using hlength
  have hfirst : Crowd names key 0 1 (share b [] [.connect (names 0) key .default]).2 := by
    refine ⟨rfl, ⟨_, rfl, rfl⟩, rfl, fun i hi => ?_⟩
    have hother : names i ≠ names 0 := fun heq => by
      have := hnames heq
      omega
    change [(names 0, _)].lookup (names i) = none
    rw [List.lookup_cons, beq_eq_false_iff_ne.mpr hother]
    rfl
  have hover : p.Overcrowded key 0 := overcrowded_share hnames hfirst rfl
  exact ⟨hover, hover.not_sharesByKey _⟩

end WideRow.Pool
