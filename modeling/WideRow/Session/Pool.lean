import WideRow.Cursor.Basic
import WideRow.Session.Cache
import WideRow.Session.Handle

/-!
# The session pool

Sessions are shared by equal parameters. A pool has the handles of all sessions, the cache that
finds them, and who holds them: names given to handles, and connections, of which each has one
reference on its handle. The last release of a handle closes its session and its cluster and takes
it out of the cache. A handle that nobody holds any more is dropped, and closed if no release did so
before.
-/

namespace WideRow

/-! ## Names -/

namespace Names

/-- Gives a name to a value, in place of what had it. -/
def assign {α : Type} (name : String) (a : α) (l : List (String × α)) : List (String × α) :=
  (name, a) :: l.filter (·.1 != name)

def remove {α : Type} (name : String) (l : List (String × α)) : List (String × α) :=
  l.filter (·.1 != name)

end Names

/-! ## The pool -/

/-- A connection has a reference on a handle while it is open. -/
structure Connection where
  handle : Option ClusterId
  options : CursorOptions
  deriving DecidableEq

def Connection.isClosed (c : Connection) : Bool :=
  c.handle.isNone

structure Pool (σ : Type) where
  backend : σ
  /-- What happened to the clusters, the last first. -/
  events : List ClusterEvent
  nextId : ClusterId
  /-- The handles that were not dropped. -/
  handles : List (ClusterId × Handle)
  cache : SessionCache
  /-- The handles that have names. -/
  named : List (String × ClusterId)
  connections : List (String × Connection)

namespace Pool

variable {σ : Type}

def start (backend : σ) : Pool σ :=
  ⟨backend, [], 0, [], .empty, [], []⟩

def handle? (p : Pool σ) (id : ClusterId) : Option Handle :=
  p.handles.lookup id

def counts (p : Pool σ) : ClusterCounts :=
  .ofEvents p.events

def note (p : Pool σ) (event : ClusterEvent) : Pool σ :=
  { p with events := event :: p.events }

/-- Puts a handle in the place of the one with its number. -/
def setHandle (p : Pool σ) (id : ClusterId) (h : Handle) : Pool σ :=
  { p with handles := p.handles.map fun entry => if entry.1 == id then (id, h) else entry }

def closeResources (p : Pool σ) (id : ClusterId) : Pool σ :=
  (p.note (.sessionClosed id)).note (.clusterClosed id)

/-! ## Building -/

/-- The error for a cluster that cannot be had. A failed connection and an invalid configuration
are told as they are; any other error becomes the reason of a failed connection. -/
def connectionFailure : ClientError → ClientError
  | .connectionFailed reason => .connectionFailed reason
  | .invalidConfig cause => .invalidConfig cause
  | error => .connectionFailed error.message

/-- Builds a cluster for parameters and opens its session. A cluster without a session is closed. -/
def buildHandle (b : Backend σ) (key : Params) (p : Pool σ) : Result ClusterId × Pool σ :=
  match SessionConfig.ofParams key with
  | .error cause => (.error (.invalidConfig cause), p)
  | .ok config =>
    match b.build config p.backend with
    | (.error error, backend) => (.error (connectionFailure error), { p with backend := backend })
    | (.ok _, backend) =>
      let id := p.nextId
      let p := { p with nextId := id + 1 }.note (.built id)
      match b.connect config backend with
      | (.error error, backend) =>
        (.error (connectionFailure error), { p with backend := backend }.note (.clusterClosed id))
      | (.ok _, backend) =>
        let handles := (id, Handle.fresh key config) :: p.handles
        (.ok id, { p with backend := backend, handles := handles }.note (.connected id))

/-- One round of a look-up: the answer, the slots and the pool, or nothing if the slot that was found
was given up meanwhile. Then the parameters are looked up again. -/
def loadRound (b : Backend σ) (key : Params) (t : SlotTable) (p : Pool σ) :
    Option (Result ClusterId × SlotTable × Pool σ) :=
  let (address, t) := t.enter key
  match t.handleAt? address with
  | some id => some (.ok id, t.hit, p)
  | none =>
    -- The slot is locked from here on. Who had the lock before may have failed or filled it.
    if t.hasFailed address then none
    else
      match t.handleAt? address with
      | some id => some (.ok id, t.hit, p)
      | none =>
        match p.buildHandle b key with
        | (.ok id, p) => some (.ok id, t.load address id, p)
        | (.error error, p) => some (.error error, t.giveUp key address, p)

theorem loadRound_of_find? {t : SlotTable} (ht : Settled t.slots) {key : Params} {id : ClusterId}
    (h : t.find? key = some id) (b : Backend σ) (p : Pool σ) :
    p.loadRound b key t = some (.ok id, t.hit, p) := by
  obtain ⟨slot, hslot, hid⟩ := Option.bind_eq_some_iff.mp h
  have hat := SlotTable.at?_of_slot? ht hslot
  have henter : t.enter key = (slot.address, t) := by
    unfold SlotTable.enter
    rw [hslot]
  unfold loadRound
  rw [henter]
  simp [SlotTable.handleAt?, hat, hid]

theorem loadRound_of_none {t : SlotTable} {key : Params} (h : t.slot? key = none) (b : Backend σ)
    (p : Pool σ) :
    p.loadRound b key t = some
      (match p.buildHandle b key with
      | (.ok id, p) => (.ok id, t.store key id, p)
      | (.error error, p) => (.error error, t, p)) := by
  have hat := SlotTable.at?_put key (.empty t.newAddress) t
  have hload (id : ClusterId) := SlotTable.load_put key id t
  have hgiveUp := SlotTable.giveUp_put h
  unfold loadRound
  rw [SlotTable.enter_of_none h]
  simp only [Slot.empty] at hat hload hgiveUp
  simp only [SlotTable.handleAt?, SlotTable.hasFailed, Slot.empty, hat, Option.bind_some,
    Option.any_some, Bool.false_eq_true, if_false, hload, hgiveUp]
  split <;> rfl

theorem slot?_of_find? {t : SlotTable} (ht : Settled t.slots) {key : Params}
    (h : t.find? key = none) : t.slot? key = none := by
  cases hslot : t.slot? key with
  | none => rfl
  | some slot =>
    have hfilled := ht.filled _ (SlotTable.mem_of_slot? hslot)
    simp only [SlotTable.find?, hslot, Option.bind_some] at h
    simp [Slot.isFilled, h] at hfilled

/-- Where nobody waits for a slot, one round does, and nobody waits after it. -/
theorem settled_loadRound {t : SlotTable} (ht : Settled t.slots) (b : Backend σ) (key : Params)
    (p : Pool σ) :
    ∃ outcome, p.loadRound b key t = some outcome ∧ Settled outcome.2.1.slots := by
  cases hfind : t.find? key with
  | some id => exact ⟨_, loadRound_of_find? ht hfind b p, ht⟩
  | none =>
    refine ⟨_, loadRound_of_none (slot?_of_find? ht hfind) b p, ?_⟩
    split
    · exact SlotTable.settled_store ht key _
    · exact ht

/-- The handle of parameters; it is built where the cache does not know one. -/
def load (b : Backend σ) (key : Params) (p : Pool σ) : Result ClusterId × Pool σ :=
  have hround := settled_loadRound p.cache.settled b key p
  let round := (p.loadRound b key p.cache.toSlotTable).get (by
    obtain ⟨outcome, houtcome, -⟩ := hround
    rw [houtcome]
    rfl)
  (round.1, { round.2.2 with cache := ⟨round.2.1, by
    obtain ⟨outcome, houtcome, hsettled⟩ := hround
    simpa [round, houtcome] using hsettled⟩ })

/-! ## References -/

/-- Takes a reference on a handle, and tells whether that was possible. -/
def acquireHandle (id : ClusterId) (p : Pool σ) : Bool × Pool σ :=
  match p.handle? id with
  | some h => (h.acquire.1, p.setHandle id h.acquire.2)
  | none => (false, p)

/-- Gives a reference back, and tells whether this disposed the handle. -/
def releaseHandle (id : ClusterId) (p : Pool σ) : Bool × Pool σ :=
  match p.handle? id with
  | some h =>
    let (disposed, released) := h.release
    let p := p.setHandle id released
    if disposed then
      let p := p.closeResources id
      (true, { p with cache := p.cache.evict h.key id })
    else (false, p)
  | none => (false, p)

/-- The handle of parameters with one more reference. A disposed handle in the cache is replaced. -/
def acquire (b : Backend σ) (key : Params) (p : Pool σ) : Result ClusterId × Pool σ :=
  match p.load b key with
  | (.error error, p) => (.error error, p)
  | (.ok id, p) =>
    match p.acquireHandle id with
    | (true, p) => (.ok id, p)
    | (false, p) =>
      match { p with cache := p.cache.evict key id }.load b key with
      | (.error error, p) => (.error error, p)
      | (.ok id, p) => (.ok id, (p.acquireHandle id).2)

/-! ## Dropping -/

/-- Whether the cache, a name or a connection refers to a handle. -/
def isHeld (p : Pool σ) (id : ClusterId) : Bool :=
  p.cache.entries.any (·.2 == id) || p.named.any (·.2 == id) ||
    p.connections.any (·.2.handle == some id)

/-- Drops the handles that nobody holds. -/
def sweep (p : Pool σ) : Pool σ :=
  let dropped := p.handles.filter fun entry => !p.isHeld entry.1
  let closed := (dropped.filter fun entry => !entry.2.isDisposed).foldl
    (fun p entry => p.closeResources entry.1) p
  { closed with handles := p.handles.filter fun entry => p.isHeld entry.1 }

/-! ## Names for handles -/

def nameHandle (name : String) (id : ClusterId) (p : Pool σ) : Pool σ :=
  { p with named := Names.assign name id p.named }.sweep

/-- Takes a name away, and tells whether a handle had it. -/
def dropName (name : String) (p : Pool σ) : Bool × Pool σ :=
  ((p.named.lookup name).isSome, { p with named := Names.remove name p.named }.sweep)

def loadAs (b : Backend σ) (name : String) (key : Params) (p : Pool σ) :
    Result ClusterId × Pool σ :=
  match p.load b key with
  | (.error error, p) => (.error error, p.sweep)
  | (.ok id, p) => (.ok id, p.nameHandle name id)

def acquireAs (b : Backend σ) (name : String) (key : Params) (p : Pool σ) :
    Result ClusterId × Pool σ :=
  match p.acquire b key with
  | (.error error, p) => (.error error, p.sweep)
  | (.ok id, p) => (.ok id, p.nameHandle name id)

/-- Removes the cache entry of parameters, and tells whether there was one. -/
def invalidate (key : Params) (p : Pool σ) : Bool × Pool σ :=
  let (removed, cache) := p.cache.invalidate key
  (removed, { p with cache := cache }.sweep)

/-! ## Connections -/

/-- Gives back the reference of an open connection. Tells whether this disposed the handle. -/
def releaseConnection (c : Connection) (p : Pool σ) : Bool × Pool σ :=
  match c.handle with
  | some id => p.releaseHandle id
  | none => (false, p)

/-- Closes a connection, which keeps its name. Tells whether this disposed the handle. -/
def closeConnection (name : String) (p : Pool σ) : Bool × Pool σ :=
  match p.connections.lookup name with
  | some c =>
    let (disposed, p) := p.releaseConnection c
    let closed : Connection := ⟨none, c.options⟩
    (disposed, { p with connections := Names.assign name closed p.connections }.sweep)
  | none => (false, p)

/-- Closes a connection and takes its name away. Tells whether there was one. -/
def dropConnection (name : String) (p : Pool σ) : Bool × Pool σ :=
  match p.connections.lookup name with
  | some c =>
    let p := (p.releaseConnection c).2
    (true, { p with connections := Names.remove name p.connections }.sweep)
  | none => (false, p)

/-- A new connection for parameters, which has no name yet. -/
def connect (b : Backend σ) (key : Params) (options : CursorOptions) (p : Pool σ) :
    Result Connection × Pool σ :=
  match p.acquire b key with
  | (.error error, p) => (.error error, p.sweep)
  | (.ok id, p) => (.ok ⟨some id, options⟩, p)

/-- A new connection for the parameters of an address together with explicit ones, which count where
both have a key. -/
def connectWith (b : Backend σ) (url explicit : Params) (options : CursorOptions) (p : Pool σ) :
    Result Connection × Pool σ :=
  p.connect b (url.merged explicit) options

/-- Gives a name to a connection. A connection that had the name is closed. -/
def nameConnection (name : String) (c : Connection) (p : Pool σ) : Pool σ :=
  let p :=
    match p.connections.lookup name with
    | some replaced => (p.releaseConnection replaced).2
    | none => p
  { p with connections := Names.assign name c p.connections }.sweep

def config (c : Connection) (p : Pool σ) : Result SessionConfig :=
  match c.handle.bind p.handle? with
  | some h => .ok h.config
  | none => .error .connectionClosed

/-! ## Queries -/

def execute (b : Backend σ) (id : ClusterId) (query : String) (p : Pool σ) :
    Result QueryOutput × Pool σ :=
  match p.handle? id with
  | some h =>
    let (answer, backend) := b.execute h.config query p.backend
    (answer, { p with backend := backend }.note (.queried id))
  | none => (.error .connectionClosed, p)

/-- Answers a query on a connection with a cursor, which has the connection's options. -/
def query (b : Backend σ) (c : Connection) (text : String) (p : Pool σ) :
    Result Cursor × Pool σ :=
  match c.handle with
  | some id =>
    let (answer, p) := p.execute b id text
    (answer.map fun output => .ofOutput output c.options, p)
  | none => (.error .connectionClosed, p)

/-! ## The end -/

/-- Drops the cache, then the names, then the connections. -/
def finish (p : Pool σ) : Pool σ :=
  let p := { p with cache := p.cache.clear }.sweep
  let p := { p with named := [] }.sweep
  p.connections.foldl (fun p connection => (p.dropConnection connection.1).2) p

end Pool

end WideRow
