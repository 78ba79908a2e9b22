import WideRow.Proofs.Tallies

/-!
# The roster of open connections

Where handles are had by connections alone, each open connection sits on the handle that is cached
for its parameters, and a handle has a reference for each connection on it and no other.
-/

namespace WideRow

/-! ## Names -/

namespace Names

variable {α : Type} {l : List (String × α)} {name n : String} {a : α}

theorem lookup_remove_self (name : String) (l : List (String × α)) :
    (remove name l).lookup name = none := by
  rw [remove, lookup_filter (· != name)]
  simp

theorem lookup_remove_other (h : n ≠ name) (l : List (String × α)) :
    (remove name l).lookup n = l.lookup n := by
  rw [remove, lookup_filter (· != name), if_pos (by simpa using h)]

theorem lookup_assign_other (h : n ≠ name) (a : α) (l : List (String × α)) :
    (assign name a l).lookup n = l.lookup n :=
  (lookup_cons_other h a).trans (lookup_remove_other h l)

theorem nodup_remove (hn : (l.map Prod.fst).Nodup) (name : String) :
    ((remove name l).map Prod.fst).Nodup :=
  hn.sublist (List.filter_sublist.map Prod.fst)

theorem nodup_assign (hn : (l.map Prod.fst).Nodup) (name : String) (a : α) :
    ((assign name a l).map Prod.fst).Nodup := by
  refine List.nodup_cons.mpr ⟨?_, nodup_remove hn name⟩
  intro hmem
  obtain ⟨entry, hentry, hname⟩ := List.mem_map.mp hmem
  exact bne_iff_ne.mp (List.mem_filter.mp hentry).2 hname

theorem remove_of_lookup (h : l.lookup name = none) : remove name l = l := by
  rw [remove, List.filter_eq_self]
  rintro entry hentry
  rw [bne_comm]
  exact List.lookup_eq_none_iff.mp h entry hentry

theorem perm_assign (hn : (l.map Prod.fst).Nodup) (h : l.lookup name = some a) :
    l.Perm (assign name a l) := by
  rw [List.perm_ext_iff_of_nodup hn.of_map (nodup_assign hn name a).of_map]
  rintro ⟨n, x⟩
  have hmem {m : List (String × α)} (hm : (m.map Prod.fst).Nodup) :
      (n, x) ∈ m ↔ m.lookup n = some x := ⟨lookup_of_mem hm, mem_of_lookup⟩
  rw [hmem hn, hmem (nodup_assign hn name a)]
  by_cases hne : n = name
  · rw [hne, h]
    exact Iff.of_eq (congrArg (· = some x) (lookup_cons_self a).symm)
  · rw [lookup_assign_other hne]

theorem mem_filter_names (hn : (l.map Prod.fst).Nodup) (good : α → Bool) :
    n ∈ (l.filter fun entry => good entry.2).map Prod.fst ↔
      ∃ x, l.lookup n = some x ∧ good x = true := by
  simp only [List.mem_map, List.mem_filter]
  constructor
  · rintro ⟨⟨i, x⟩, ⟨hmem, hgood⟩, rfl⟩
    exact ⟨x, lookup_of_mem hn hmem, hgood⟩
  · rintro ⟨x, hlookup, hgood⟩
    exact ⟨(n, x), ⟨mem_of_lookup hlookup, hgood⟩, rfl⟩

theorem countP_eq {β : Type} {m : List (String × β)} (good : α → Bool) (fine : β → Bool)
    (hl : (l.map Prod.fst).Nodup) (hm : (m.map Prod.fst).Nodup)
    (h : ∀ name, (∃ x, l.lookup name = some x ∧ good x = true) ↔
      ∃ y, m.lookup name = some y ∧ fine y = true) :
    (l.countP fun entry => good entry.2) = m.countP fun entry => fine entry.2 := by
  have hnl : ((l.filter fun entry => good entry.2).map Prod.fst).Nodup :=
    hl.sublist (List.filter_sublist.map Prod.fst)
  have hnm : ((m.filter fun entry => fine entry.2).map Prod.fst).Nodup :=
    hm.sublist (List.filter_sublist.map Prod.fst)
  have hperm : ((l.filter fun entry => good entry.2).map Prod.fst).Perm
      ((m.filter fun entry => fine entry.2).map Prod.fst) := by
    rw [List.perm_ext_iff_of_nodup hnl hnm]
    intro name
    rw [mem_filter_names hl, mem_filter_names hm]
    exact h name
  have hlength := hperm.length_eq
  rwa [List.length_map, List.length_map, ← List.countP_eq_length_filter,
    ← List.countP_eq_length_filter] at hlength

end Names

/-! ## Calls -/

/-- The open connections by name, each with its parameters. -/
abbrev Roster : Type :=
  List (String × Params)

def Roster.keys (roster : Roster) : List Params :=
  roster.map Prod.snd

/-- The calls with which connections come and go. -/
inductive ConnectionCall where
  | connect (name : String) (key : Params) (options : CursorOptions)
  | connectWith (name : String) (url explicit : Params) (options : CursorOptions)
  | close (name : String)
  | drop (name : String)

def ConnectionCall.call : ConnectionCall → PoolCall
  | .connect name key options => .connect name key options
  | .connectWith name url explicit options => .connect name (url.merged explicit) options
  | .close name => .close name
  | .drop name => .dropConnection name

/-- The roster after a connection was opened, or not, by the answer. -/
def Roster.join (roster : Roster) (name : String) (key : Params) : Result Connection → Roster
  | .ok _ => Names.assign name key roster
  | .error _ => roster

namespace Pool

variable {σ : Type}

/-- The roster after a call. -/
def enroll (b : Backend σ) (p : Pool σ) (roster : Roster) : ConnectionCall → Roster
  | .connect name key options => roster.join name key (p.connect b key options).1
  | .connectWith name url explicit options =>
    roster.join name (url.merged explicit) (p.connectWith b url explicit options).1
  | .close name => Names.remove name roster
  | .drop name => Names.remove name roster

/-- The roster and the pool, after calls to a new pool. -/
def share (b : Backend σ) (backend : σ) (calls : List ConnectionCall) : Roster × Pool σ :=
  calls.foldl (fun s call => (s.2.enroll b s.1 call, (s.2.perform b call.call).2))
    ([], start backend)

theorem share_append_one (b : Backend σ) (backend : σ) (calls : List ConnectionCall)
    (call : ConnectionCall) :
    share b backend (calls ++ [call]) =
      ((share b backend calls).2.enroll b (share b backend calls).1 call,
        ((share b backend calls).2.perform b call.call).2) := by
  unfold share
  rw [List.foldl_append, List.foldl_cons, List.foldl_nil]

theorem share_snd (b : Backend σ) (backend : σ) (calls : List ConnectionCall) :
    (share b backend calls).2 = (run b backend (calls.map ConnectionCall.call)).2 := by
  induction calls using List.reverseRecOn with
  | nil => rfl
  | append_singleton calls call ih =>
    rw [share_append_one, List.map_append, List.map_singleton, run_append_one, ih]

/-! ## Who sits where -/

/-- The open connections are those of the roster, each on the handle that is cached for it. -/
def Seats (p : Pool σ) (roster : Roster) : Prop :=
  ∀ name, p.held? (.connection name) = (roster.lookup name).bind p.cache.find?

/-- All references are those of open connections, and these have different names. -/
structure Seated (p : Pool σ) (roster : Roster) : Prop where
  tallied : p.Tallied roster.keys
  seats : p.Seats roster
  distinct : (roster.map Prod.fst).Nodup
  known : (p.connections.map Prod.fst).Nodup
  unnamed : p.named = []

/-- Gives back the reference of the connection with a name. -/
def vacate (name : String) (p : Pool σ) : Bool × Pool σ :=
  match p.connections.lookup name with
  | some c => p.releaseConnection c
  | none => (false, p)

section

variable {b : Backend σ} {p q : Pool σ} {roster : Roster} {name : String} {key : Params}
  {id : ClusterId}

theorem held?_connection (p : Pool σ) (name : String) :
    p.held? (.connection name) = (p.connections.lookup name).bind Connection.handle :=
  rfl

theorem seated_start (backend : σ) : (start backend).Seated [] :=
  ⟨⟨fun _ => ⟨nofun, nofun⟩, nofun⟩, fun _ => rfl, List.nodup_nil, List.nodup_nil, rfl⟩

theorem mem_keys (h : roster.lookup name = some key) : key ∈ roster.keys :=
  List.mem_map_of_mem (mem_of_lookup h)

theorem perm_keys (hn : (roster.map Prod.fst).Nodup) (h : roster.lookup name = some key) :
    roster.keys.Perm (key :: Roster.keys (Names.remove name roster)) :=
  (Names.perm_assign hn h).map _

theorem Seats.congr (hp : p.Seats roster) (hconnections : q.connections = p.connections)
    (hcache : ∀ key ∈ roster.keys, q.cache.find? key = p.cache.find? key) : q.Seats roster := by
  intro n
  have hheld : q.held? (.connection n) = p.held? (.connection n) := by
    unfold held?
    rw [hconnections]
  rw [hheld, hp n]
  cases hn : roster.lookup n with
  | none => rfl
  | some key => exact (hcache key (mem_keys hn)).symm

theorem Seated.sweep (hp : p.Seated roster) : p.sweep.Seated roster := by
  refine ⟨hp.tallied.sweep, hp.seats.congr (connections_sweep p) ?_, hp.distinct, ?_, ?_⟩
  · rw [cache_sweep]
    exact fun _ _ => rfl
  · rw [connections_sweep]
    exact hp.known
  · rw [named_sweep]
    exact hp.unnamed

theorem Seated.held (hp : p.Seated roster) (h : roster.lookup name = some key) :
    ∃ id, p.held? (.connection name) = some id ∧ p.cache.find? key = some id := by
  obtain ⟨id, hfind⟩ := (hp.tallied.cached _).mpr (mem_keys h)
  refine ⟨id, ?_, hfind⟩
  rw [hp.seats name, h]
  exact hfind

theorem Seated.lookup_of_held (hp : p.Seated roster) (h : p.held? (.connection name) = some id) :
    ∃ key, roster.lookup name = some key ∧ p.cache.find? key = some id := by
  rw [hp.seats name] at h
  exact Option.bind_eq_some_iff.mp h

/-! ## Giving up a seat -/

theorem vacate_of_held (h : p.held? (.connection name) = some id) :
    p.vacate name = p.releaseHandle id := by
  obtain ⟨c, hc, hid⟩ := Option.bind_eq_some_iff.mp h
  unfold vacate releaseConnection
  rw [hc]
  simp only [hid]

theorem vacate_of_not_held (h : p.held? (.connection name) = none) :
    p.vacate name = (false, p) := by
  unfold vacate releaseConnection
  cases hc : p.connections.lookup name with
  | none => rfl
  | some c =>
    rw [held?_connection, hc] at h
    simp only [show c.handle = none from h]

theorem vacate_of_lookup {c : Connection} (h : p.connections.lookup name = some c) :
    p.vacate name = p.releaseConnection c := by
  rw [vacate, h]

theorem holders_vacate (name : String) (p : Pool σ) :
    (p.vacate name).2.named = p.named ∧ (p.vacate name).2.connections = p.connections := by
  cases h : p.held? (.connection name) with
  | none =>
    rw [vacate_of_not_held h]
    exact ⟨rfl, rfl⟩
  | some id =>
    rw [vacate_of_held h]
    exact holders_releaseHandle p id

theorem Tallied.vacate (more : List Params) (hp : p.Tallied (more ++ roster.keys))
    (hseats : p.Seats roster) (hn : (roster.map Prod.fst).Nodup) (name : String) :
    let rest := more ++ Roster.keys (Names.remove name roster)
    (p.vacate name).2.Tallied rest ∧
      (∀ k ∈ rest, (p.vacate name).2.cache.find? k = p.cache.find? k) ∧
      ((p.vacate name).1 = true ↔
        ∃ key, roster.lookup name = some key ∧ key ∉ rest) := by
  intro rest
  cases hname : roster.lookup name with
  | none =>
    have hheld : p.held? (.connection name) = none := by rw [hseats name, hname]; rfl
    rw [vacate_of_not_held hheld]
    have hrest : rest = more ++ roster.keys :=
      congrArg (fun l => more ++ Roster.keys l) (Names.remove_of_lookup hname)
    rw [hrest]
    exact ⟨hp, fun _ _ => rfl, by simp⟩
  | some key =>
    have hperm : (more ++ roster.keys).Perm (key :: rest) :=
      ((perm_keys hn hname).append_left more).trans List.perm_middle
    have htallied := hp.perm hperm
    obtain ⟨id, hfind⟩ := (htallied.cached _).mpr List.mem_cons_self
    have hheld : p.held? (.connection name) = some id := by rw [hseats name, hname]; exact hfind
    obtain ⟨hleft, hothers, hlast⟩ := htallied.release hfind
    rw [vacate_of_held hheld]
    refine ⟨hleft, hothers, hlast.trans ?_⟩
    simp

/-! ## Each call -/

theorem closeConnection_eq {c : Connection} (h : p.connections.lookup name = some c) :
    p.closeConnection name =
      ((p.vacate name).1, { (p.vacate name).2 with
        connections := Names.assign name ⟨none, c.options⟩ p.connections }.sweep) := by
  rw [← (holders_vacate name p).2, vacate_of_lookup h, Pool.closeConnection, h]

theorem dropConnection_eq {c : Connection} (h : p.connections.lookup name = some c) :
    p.dropConnection name =
      (true, { (p.vacate name).2 with
        connections := Names.remove name p.connections }.sweep) := by
  rw [← (holders_vacate name p).2, vacate_of_lookup h, Pool.dropConnection, h]

theorem nameConnection_eq (name : String) (c : Connection) (p : Pool σ) :
    p.nameConnection name c =
      { (p.vacate name).2 with connections := Names.assign name c p.connections }.sweep := by
  rw [← (holders_vacate name p).2, nameConnection, vacate]
  cases p.connections.lookup name <;> rfl

theorem Seated.leave (hp : p.Seated roster) (connections : List (String × Connection))
    (hclosed : (connections.lookup name).bind Connection.handle = none)
    (hothers : ∀ n, n ≠ name → connections.lookup n = p.connections.lookup n)
    (hknown : (connections.map Prod.fst).Nodup) :
    { (p.vacate name).2 with connections := connections }.Seated (Names.remove name roster) := by
  obtain ⟨htallied, hcache, -⟩ := Tallied.vacate [] hp.tallied hp.seats hp.distinct name
  refine ⟨htallied.congr (fun _ => rfl) (fun _ => rfl), fun n => ?_,
    Names.nodup_remove hp.distinct name, hknown, (holders_vacate name p).1.trans hp.unnamed⟩
  by_cases hne : n = name
  · subst hne
    rw [Names.lookup_remove_self]
    exact hclosed
  · have hheld := hp.seats n
    rw [held?_connection] at hheld ⊢
    simp only [hothers n hne, hheld, Names.lookup_remove_other hne]
    cases hn : roster.lookup n with
    | none => rfl
    | some key =>
      exact (hcache key (mem_keys ((Names.lookup_remove_other hne roster).trans hn))).symm

theorem Seated.leave_unknown (hp : p.Seated roster) (h : p.connections.lookup name = none) :
    p.Seated (Names.remove name roster) := by
  have hleft := hp.leave p.connections (by rw [h]; rfl) (fun _ _ => rfl) hp.known
  rwa [vacate_of_not_held (by rw [held?_connection, h]; rfl)] at hleft

theorem Seated.closeConnection (hp : p.Seated roster) (name : String) :
    (p.closeConnection name).2.Seated (Names.remove name roster) := by
  cases hc : p.connections.lookup name with
  | none =>
    rw [Pool.closeConnection, hc]
    exact hp.leave_unknown hc
  | some c =>
    rw [closeConnection_eq hc]
    refine Seated.sweep (hp.leave _ ?_ ?_ (Names.nodup_assign hp.known name _))
    · rw [Names.assign, lookup_cons_self]
      rfl
    · exact fun n hne => Names.lookup_assign_other hne _ _

theorem Seated.dropConnection (hp : p.Seated roster) (name : String) :
    (p.dropConnection name).2.Seated (Names.remove name roster) := by
  cases hc : p.connections.lookup name with
  | none =>
    rw [Pool.dropConnection, hc]
    exact hp.leave_unknown hc
  | some c =>
    rw [dropConnection_eq hc]
    refine Seated.sweep (hp.leave _ ?_ ?_ (Names.nodup_remove hp.known name))
    · rw [Names.lookup_remove_self]
      rfl
    · exact fun n hne => Names.lookup_remove_other hne _

theorem Seated.connect (hp : p.Seated roster) (hroom : p.Room) (hnew : p.handle? p.nextId = none)
    {c : Connection} {options : CursorOptions}
    (h : p.connect b key options = (.ok c, q)) (name : String) :
    (q.nameConnection name c).Seated (Names.assign name key roster) := by
  unfold Pool.connect at h
  split at h
  · cases h
  rename_i id r hacquire
  cases h
  obtain ⟨htallied, hfind, hcache⟩ := hp.tallied.acquire hroom hnew hacquire
  have hobtains := hp.tallied.obtains b key
  rw [hacquire] at hobtains
  obtain ⟨hnamed, hconnections⟩ := hobtains.holders
  have hseats := hp.seats.congr hconnections hcache
  obtain ⟨hleft, hcache, -⟩ := Tallied.vacate [key] htallied hseats hp.distinct name
  have hknown := hp.known
  have hunnamed := (holders_vacate name q).1.trans (hnamed.trans hp.unnamed)
  rw [← hconnections] at hknown
  rw [nameConnection_eq]
  refine Seated.sweep ⟨hleft.congr (fun _ => rfl) (fun _ => rfl), fun n => ?_,
    Names.nodup_assign hp.distinct name key, Names.nodup_assign hknown name _, hunnamed⟩
  rw [held?_connection]
  by_cases hne : n = name
  · subst hne
    simp only [Names.assign, lookup_cons_self, Option.bind_some]
    exact ((hcache _ List.mem_cons_self).trans hfind).symm
  · have hheld := hseats n
    rw [held?_connection] at hheld
    simp only [Names.lookup_assign_other hne, hheld]
    cases hn : roster.lookup n with
    | none => rfl
    | some key =>
      have hmem := mem_keys ((Names.lookup_remove_other hne roster).trans hn)
      exact (hcache key (List.mem_append_right _ hmem)).symm

theorem Seated.connect_error (hp : p.Seated roster) {e : ClientError} {options : CursorOptions}
    (h : p.connect b key options = (.error e, q)) : q.Seated roster := by
  have hobtains := hp.tallied.obtains b key
  unfold Pool.connect at h
  generalize p.acquire b key = outcome at hobtains h
  cases hobtains with
  | shared => cases h
  | built => cases h
  | failed _ _ hcache hhandles hnamed hconnections =>
    cases h
    refine Seated.sweep ⟨hp.tallied.congr ?_ ?_, hp.seats.congr hconnections ?_, hp.distinct, ?_, ?_⟩
    · exact fun _ => hcache ▸ rfl
    · exact fun _ => by rw [handle?, hhandles, handle?]
    · exact fun _ _ => hcache ▸ rfl
    · exact hconnections ▸ hp.known
    · exact hnamed ▸ hp.unnamed

theorem Seated.performConnect (hp : p.Seated roster) (hroom : p.Room)
    (hnew : p.handle? p.nextId = none) (name : String) (key : Params) (options : CursorOptions) :
    (p.perform b (.connect name key options)).2.Seated
      (roster.join name key (p.connect b key options).1) := by
  simp only [Pool.perform]
  cases hconnect : p.connect b key options with
  | mk answer q =>
    cases answer with
    | error e => exact hp.connect_error hconnect
    | ok c => exact hp.connect hroom hnew hconnect name

theorem Seated.perform (hp : p.Seated roster) (hroom : p.Room) (hnew : p.handle? p.nextId = none)
    (call : ConnectionCall) : (p.perform b call.call).2.Seated (p.enroll b roster call) := by
  cases call with
  | connect name key options => exact hp.performConnect hroom hnew name key options
  | connectWith name url explicit options => exact hp.performConnect hroom hnew name _ options
  | close name => exact hp.closeConnection name
  | drop name => exact hp.dropConnection name

/-! ## Whole runs -/

theorem reached_share (b : Backend σ) (backend : σ) (calls : List ConnectionCall) :
    Reached b backend (fun _ => True) (share b backend calls).2 := by
  rw [share_snd]
  exact reached_run b backend _

theorem coherent_share (b : Backend σ) (backend : σ) (calls : List ConnectionCall) :
    (share b backend calls).2.Coherent fun _ => True := by
  rw [share_snd]
  exact kept_run b backend _

theorem Seated.find?_of_isHeld (hp : p.Seated roster) (hbalanced : p.cache.Balanced)
    (h : p.isHeld id = true) : ∃ key, p.cache.find? key = some id := by
  rcases isHeld_iff.mp h with ⟨entry, hentry, rfl⟩ | ⟨entry, hentry, -⟩ | ⟨entry, hentry, hid⟩
  · exact ⟨entry.1, hbalanced.find?_of_mem hentry⟩
  · rw [hp.unnamed] at hentry
    cases hentry
  · have hheld : p.held? (.connection entry.1) = some id := by
      rw [held?_connection, lookup_of_mem hp.known hentry]
      exact hid
    obtain ⟨key, -, hfind⟩ := hp.lookup_of_held hheld
    exact ⟨key, hfind⟩

theorem Seated.find?_of_handle (hp : p.Seated roster) (hbalanced : p.cache.Balanced)
    (hswept : p.Swept) {h : Handle} (hid : p.handle? id = some h) :
    ∃ key, p.cache.find? key = some id :=
  hp.find?_of_isHeld hbalanced (hswept id (List.mem_map_of_mem (mem_of_lookup hid)))

/-- All along the calls, fewer connections have the same parameters than a handle can count. -/
def Uncrowded (b : Backend σ) (backend : σ) (calls : List ConnectionCall) : Prop :=
  ∀ before, before <+: calls → ∀ key, (share b backend before).1.keys.count key < 2147483647

theorem Uncrowded.before {backend : σ} {calls before : List ConnectionCall}
    (h : Uncrowded b backend calls) (hbefore : before <+: calls) : Uncrowded b backend before :=
  fun first hfirst => h first (hfirst.trans hbefore)

theorem Seated.room (hp : p.Seated roster) (hbalanced : p.cache.Balanced) (hswept : p.Swept)
    (hfew : ∀ key, roster.keys.count key < 2147483647) : p.Room := by
  rintro id h hid
  obtain ⟨key, hfind⟩ := hp.find?_of_handle hbalanced hswept hid
  obtain ⟨x, hx, -, hrefs⟩ := hp.tallied.counted hfind
  rw [hid] at hx
  cases hx
  have := hfew key
  omega

theorem Seated.room_share {backend : σ} {calls : List ConnectionCall}
    (hp : (share b backend calls).2.Seated (share b backend calls).1)
    (h : Uncrowded b backend calls) : (share b backend calls).2.Room :=
  hp.room (coherent_share b backend calls).balanced (reached_share b backend calls).swept
    (h calls (List.prefix_refl calls))

theorem seated_share {backend : σ} {calls : List ConnectionCall} (h : Uncrowded b backend calls) :
    (share b backend calls).2.Seated (share b backend calls).1 := by
  induction calls using List.reverseRecOn with
  | nil => exact seated_start backend
  | append_singleton calls call ih =>
    have hbefore := h.before (List.prefix_append calls [call])
    have hp := ih hbefore
    have hnew := (coherent_share b backend calls).not_there
    rw [share_append_one]
    exact hp.perform (hp.room_share hbefore) hnew call

theorem sound_share {backend : σ} {calls : List ConnectionCall} (h : Uncrowded b backend calls) :
    ∃ history, (share b backend calls).2.Sound history := by
  induction calls using List.reverseRecOn with
  | nil => exact ⟨[], sound_start backend⟩
  | append_singleton calls call ih =>
    have hbefore := h.before (List.prefix_append calls [call])
    obtain ⟨history, hsound⟩ := ih hbefore
    rw [share_append_one]
    exact ⟨_, hsound.perform ((seated_share hbefore).room_share hbefore) b call.call⟩

theorem length_enroll_le (b : Backend σ) (p : Pool σ) (roster : Roster) (call : ConnectionCall) :
    (p.enroll b roster call).length ≤ roster.length + 1 := by
  have hremove (name : String) : (Names.remove name roster).length ≤ roster.length :=
    List.length_filter_le _ _
  have hjoin (name : String) (key : Params) (answer : Result Connection) :
      (roster.join name key answer).length ≤ roster.length + 1 := by
    cases answer with
    | ok c => exact Nat.succ_le_succ (hremove name)
    | error e => exact Nat.le_succ _
  cases call with
  | connect => exact hjoin _ _ _
  | connectWith => exact hjoin _ _ _
  | close name => exact Nat.le_succ_of_le (hremove name)
  | drop name => exact Nat.le_succ_of_le (hremove name)

theorem length_share_le (b : Backend σ) (backend : σ) (calls : List ConnectionCall) :
    (share b backend calls).1.length ≤ calls.length := by
  induction calls using List.reverseRecOn with
  | nil => exact Nat.le_refl 0
  | append_singleton calls call ih =>
    have hlength := length_enroll_le b (share b backend calls).2 (share b backend calls).1 call
    rw [share_append_one, List.length_append, List.length_singleton]
    exact Nat.le_trans hlength (Nat.succ_le_succ ih)

theorem uncrowded_of_length (b : Backend σ) (backend : σ) {calls : List ConnectionCall}
    (h : calls.length < 2147483647) : Uncrowded b backend calls := by
  intro before hbefore key
  have hcount := List.count_le_length (a := key) (l := (share b backend before).1.keys)
  have hkeys : (share b backend before).1.keys.length = (share b backend before).1.length :=
    List.length_map _
  have hlength := length_share_le b backend before
  have := hbefore.length_le
  omega

end

end Pool

end WideRow
