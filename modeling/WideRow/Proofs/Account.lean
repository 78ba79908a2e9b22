import Mathlib.Data.List.Count
import WideRow.Proofs.Building
import WideRow.Proofs.Entries

/-! # The account of each cluster

Every cluster has one account: whether its handle is there, how often it was built, connected and
closed, and how many references were taken and given back. One step of the pool moves one account
by one of few rules and leaves the others alone.
-/

namespace WideRow

/-! ## What is counted -/

/-- How often each kind of event happened to one cluster. -/
structure Marks where
  built : Nat
  connected : Nat
  sessionClosed : Nat
  clusterClosed : Nat

def Marks.of (events : List ClusterEvent) (id : ClusterId) : Marks :=
  ⟨events.count (.built id), events.count (.connected id), events.count (.sessionClosed id),
    events.count (.clusterClosed id)⟩

def Marks.close (m : Marks) : Marks :=
  ⟨m.built, m.connected, m.sessionClosed + 1, m.clusterClosed + 1⟩

/-- A reference was taken, or given back where there was one. -/
inductive RefEvent where
  | acquired (cluster : ClusterId)
  | released (cluster : ClusterId) (disposed : Bool)
  deriving DecidableEq

/-- How often references to one cluster were taken and given back. -/
structure Tally where
  acquired : Nat
  released : Nat
  /-- The releases that disposed the handle. -/
  disposals : Nat

def Tally.of (history : List RefEvent) (id : ClusterId) : Tally :=
  ⟨history.count (.acquired id),
    history.count (.released id false) + history.count (.released id true),
    history.count (.released id true)⟩

/-- The states of a cluster that was built, with the handle that is there. -/
inductive Account : Option Handle → Marks → Tally → Prop
  /-- No session could be opened. -/
  | failed : Account none ⟨1, 0, 0, 1⟩ ⟨0, 0, 0⟩
  | live {h : Handle} {acquired released : Nat} (counted : h.refs.toInt = acquired - released)
      (nonneg : 0 ≤ h.refs.toInt) (kept : 0 < acquired → 0 < h.refs.toInt) :
      Account (some h) ⟨1, 1, 0, 0⟩ ⟨acquired, released, 0⟩
  | disposed {handle : Option Handle} {acquired released : Nat}
      (marked : ∀ h, handle = some h → h.refs = Handle.disposedRefs) :
      Account handle ⟨1, 1, 1, 1⟩ ⟨acquired, released, 1⟩
  | dropped {acquired released : Nat} : Account none ⟨1, 1, 1, 1⟩ ⟨acquired, released, 0⟩

/-! ## Counting -/

theorem marks_closeResources {σ : Type} (p : Pool σ) (i id : ClusterId) :
    Marks.of (p.closeResources i).events id =
      if id = i then (Marks.of p.events id).close else Marks.of p.events id := by
  unfold Pool.closeResources Pool.note Marks.of Marks.close
  by_cases h : id = i
  · subst h
    simp
  · simp [h, Ne.symm h]

theorem tally_append (history more : List RefEvent) (id : ClusterId) :
    Tally.of (history ++ more) id =
      ⟨(Tally.of history id).acquired + (Tally.of more id).acquired,
        (Tally.of history id).released + (Tally.of more id).released,
        (Tally.of history id).disposals + (Tally.of more id).disposals⟩ := by
  simp only [Tally.of, List.count_append, Tally.mk.injEq, true_and, and_true]
  omega

theorem tally_acquired (id : ClusterId) : Tally.of [.acquired id] id = ⟨1, 0, 0⟩ := by
  simp [Tally.of]

theorem tally_kept (id : ClusterId) : Tally.of [.released id false] id = ⟨0, 1, 0⟩ := by
  simp [Tally.of]

theorem tally_disposed (id : ClusterId) : Tally.of [.released id true] id = ⟨0, 1, 1⟩ := by
  simp [Tally.of]

def RefEvent.cluster : RefEvent → ClusterId
  | acquired id | released id _ => id

theorem tally_other {event : RefEvent} {id : ClusterId} (h : event.cluster ≠ id) :
    Tally.of [event] id = ⟨0, 0, 0⟩ := by
  cases event <;> simp [Tally.of, RefEvent.cluster] at h ⊢ <;> simp [h]

/-! ## One handle -/

namespace Account

theorem of_some {h : Handle} {m : Marks} {t : Tally} (ha : Account (some h) m t) :
    (0 ≤ h.refs.toInt ∧ h.refs.toInt = t.acquired - t.released ∧ (0 < t.acquired → 0 < h.refs.toInt) ∧
        m = ⟨1, 1, 0, 0⟩ ∧ t.disposals = 0) ∨
      (h.refs = Handle.disposedRefs ∧ m = ⟨1, 1, 1, 1⟩ ∧ t.disposals = 1) := by
  cases ha with
  | live counted nonneg kept => exact .inl ⟨nonneg, counted, kept, rfl, rfl⟩
  | disposed marked => exact .inr ⟨marked h rfl, rfl, rfl⟩

end Account

namespace Handle

theorem isDisposed_iff (h : Handle) : h.isDisposed = true ↔ h.refs.toInt < 0 := by
  unfold isDisposed
  rw [decide_eq_true_eq, Int32.lt_iff_toInt_lt]
  rfl

theorem isDisposed_of_marked {h : Handle} (hm : h.refs = disposedRefs) : h.isDisposed = true := by
  rw [isDisposed, hm]
  rfl

theorem acquire_live {h : Handle} (hnonneg : 0 ≤ h.refs.toInt) (hroom : h.refs.toInt < 2147483647) :
    h.acquire.1 = true ∧ h.acquire.2.refs.toInt = h.refs.toInt + 1 := by
  have hlive : ¬ h.isDisposed = true := by
    rw [isDisposed_iff]
    omega
  unfold acquire
  rw [if_neg hlive]
  refine ⟨rfl, ?_⟩
  rw [Int32.toInt_add]
  exact Int.bmod_eq_of_le (by simp; omega) (by simp; omega)

theorem acquire_disposed {h : Handle} (hm : h.refs = disposedRefs) : h.acquire = (false, h) :=
  if_pos (isDisposed_of_marked hm)

theorem refs_le_zero_iff (h : Handle) : h.refs ≤ 0 ↔ h.refs.toInt ≤ 0 := Int32.le_iff_toInt_le

theorem refs_pos_iff (h : Handle) : 0 < h.refs ↔ 0 < h.refs.toInt := Int32.lt_iff_toInt_lt

theorem release_none {h : Handle} (hle : h.refs ≤ 0) : h.release = (false, h) := if_pos hle

theorem release_last {h : Handle} (hone : h.refs.toInt = 1) :
    h.release = (true, ⟨h.key, h.config, disposedRefs⟩) := by
  have hle : ¬ h.refs ≤ 0 := by
    rw [refs_le_zero_iff]
    omega
  have heq : h.refs = 1 := Int32.toInt_inj.mp hone
  unfold release
  rw [if_neg hle, if_pos heq]

theorem release_more {h : Handle} (hone : 1 < h.refs.toInt) :
    h.release.1 = false ∧ h.release.2.refs.toInt = h.refs.toInt - 1 := by
  have hle : ¬ h.refs ≤ 0 := by
    rw [refs_le_zero_iff]
    omega
  have hne : h.refs ≠ 1 := by
    intro heq
    rw [heq] at hone
    exact absurd hone (by decide)
  have := h.refs.toInt_lt
  unfold release
  rw [if_neg hle, if_neg hne]
  refine ⟨rfl, ?_⟩
  rw [Int32.toInt_sub]
  exact Int.bmod_eq_of_le (by simp; omega) (by simp; omega)

end Handle

namespace Account

theorem drop_live {h : Handle} {m : Marks} {t : Tally} (ha : Account (some h) m t)
    (hlive : h.isDisposed = false) : Account none m.close t := by
  cases ha with
  | live => exact .dropped
  | disposed marked =>
    rw [Handle.isDisposed_of_marked (marked h rfl)] at hlive
    cases hlive

theorem drop_disposed {handle : Option Handle} {m : Marks} {t : Tally} (ha : Account handle m t)
    (hdisposed : ∀ h, handle = some h → h.isDisposed = true) : Account none m t := by
  cases ha with
  | failed => exact .failed
  | live counted nonneg kept =>
    have := (Handle.isDisposed_iff _).mp (hdisposed _ rfl)
    omega
  | disposed marked =>
    refine .disposed ?_
    intro h heq
    cases heq
  | dropped => exact .dropped

end Account

/-! ## The account of a pool -/

namespace Pool

variable {σ : Type}

/-- Numbers are given once; before that, nothing is counted under them. -/
structure Sound (p : Pool σ) (history : List RefEvent) : Prop where
  nodup : (p.handles.map Prod.fst).Nodup
  later : ∀ id, p.nextId ≤ id → p.handle? id = none ∧ Marks.of p.events id = ⟨0, 0, 0, 0⟩ ∧
    Tally.of history id = ⟨0, 0, 0⟩
  account : ∀ id, id < p.nextId →
    Account (p.handle? id) (Marks.of p.events id) (Tally.of history id)

theorem sound_start (backend : σ) : (start backend).Sound [] :=
  ⟨List.nodup_nil, fun _ _ => ⟨rfl, rfl, rfl⟩, fun _ h => absurd h (Nat.not_lt_zero _)⟩

theorem Sound.congr {p q : Pool σ} {history : List RefEvent} (h : p.Sound history)
    (hhandles : q.handles = p.handles) (hevents : q.events = p.events) (hnext : q.nextId = p.nextId) :
    q.Sound history := by
  refine ⟨by rw [hhandles]; exact h.nodup, ?_, ?_⟩
  · intro id hid
    unfold handle?
    rw [hhandles, hevents]
    exact h.later id (hnext ▸ hid)
  · intro id hid
    unfold handle?
    rw [hhandles, hevents]
    exact h.account id (hnext ▸ hid)

theorem Sound.touch {p q : Pool σ} {history : List RefEvent} (h : p.Sound history) (i : ClusterId)
    {more : List RefEvent} (hi : i < p.nextId) (hnext : q.nextId = p.nextId)
    (hnodup : (q.handles.map Prod.fst).Nodup)
    (hothers : ∀ id, id ≠ i → q.handle? id = p.handle? id ∧
      Marks.of q.events id = Marks.of p.events id ∧ Tally.of more id = ⟨0, 0, 0⟩)
    (hself : Account (q.handle? i) (Marks.of q.events i) (Tally.of (history ++ more) i)) :
    q.Sound (history ++ more) := by
  have hsame : ∀ id, id ≠ i → Tally.of (history ++ more) id = Tally.of history id := by
    intro id hid
    rw [tally_append, (hothers id hid).2.2]
    rfl
  refine ⟨hnodup, ?_, ?_⟩
  · intro id hid
    rw [hnext] at hid
    have hne : id ≠ i := Nat.ne_of_gt (Nat.lt_of_lt_of_le hi hid)
    rw [(hothers id hne).1, (hothers id hne).2.1, hsame id hne]
    exact h.later id hid
  · intro id hid
    by_cases hne : id = i
    · rw [hne]
      exact hself
    · rw [(hothers id hne).1, (hothers id hne).2.1, hsame id hne]
      exact h.account id (hnext ▸ hid)

theorem Sound.lt_of_handle {p : Pool σ} {history : List RefEvent} (h : p.Sound history)
    {id : ClusterId} {handle : Handle} (hid : p.handle? id = some handle) : id < p.nextId := by
  by_contra hlt
  rw [(h.later id (Nat.le_of_not_lt hlt)).1] at hid
  cases hid

/-! ## References -/

theorem handle?_setHandle_self {p : Pool σ} {id : ClusterId} {x h : Handle}
    (hid : p.handle? id = some x) : (p.setHandle id h).handle? id = some h :=
  lookup_replace_self hid

theorem handle?_setHandle_other (p : Pool σ) {id j : ClusterId} (h : Handle) (hj : j ≠ id) :
    (p.setHandle id h).handle? j = p.handle? j :=
  lookup_replace_other h hj

theorem nodup_setHandle {p : Pool σ} (id : ClusterId) (h : Handle)
    (hn : (p.handles.map Prod.fst).Nodup) : ((p.setHandle id h).handles.map Prod.fst).Nodup := by
  unfold setHandle
  rw [keys_replace]
  exact hn

theorem setHandle_same {p : Pool σ} {id : ClusterId} {h : Handle}
    (hn : (p.handles.map Prod.fst).Nodup) (hid : p.handle? id = some h) : p.setHandle id h = p := by
  unfold setHandle
  rw [replace_same hn hid]

/-- What the answer of taking a reference adds to the history. -/
def taken (id : ClusterId) (answer : Bool) : List RefEvent :=
  if answer then [.acquired id] else []

/-- What giving a reference back adds to the history: nothing, where there is none. -/
def givenBack (p : Pool σ) (id : ClusterId) : List RefEvent :=
  match p.handle? id with
  | some h => if 0 < h.refs then [.released id (p.releaseHandle id).1] else []
  | none => []

theorem Sound.setHandle {p : Pool σ} {history : List RefEvent} (hp : p.Sound history)
    {id : ClusterId} {x h : Handle} (hid : p.handle? id = some x) {event : RefEvent}
    (hevent : event.cluster = id)
    (hself : Account (some h) (Marks.of p.events id) (Tally.of (history ++ [event]) id)) :
    (p.setHandle id h).Sound (history ++ [event]) := by
  refine hp.touch id (hp.lt_of_handle hid) rfl (nodup_setHandle id h hp.nodup) ?_ ?_
  · intro j hj
    refine ⟨handle?_setHandle_other p h hj, rfl, tally_other ?_⟩
    rw [hevent]
    exact Ne.symm hj
  · rw [handle?_setHandle_self hid]
    exact hself

theorem acquireHandle_some {p : Pool σ} {id : ClusterId} {x : Handle} (hid : p.handle? id = some x) :
    p.acquireHandle id = (x.acquire.1, p.setHandle id x.acquire.2) := by
  unfold acquireHandle
  rw [hid]

theorem acquireHandle_none {p : Pool σ} {id : ClusterId} (hid : p.handle? id = none) :
    p.acquireHandle id = (false, p) := by
  unfold acquireHandle
  rw [hid]

theorem Sound.acquireHandle {p : Pool σ} {history : List RefEvent} (hp : p.Sound history)
    (id : ClusterId) (hroom : ∀ x, p.handle? id = some x → x.refs.toInt < 2147483647) :
    (p.acquireHandle id).2.Sound (history ++ taken id (p.acquireHandle id).1) := by
  cases hid : p.handle? id with
  | none =>
    rw [acquireHandle_none hid, taken, if_neg Bool.false_ne_true, List.append_nil]
    exact hp
  | some x =>
    rw [acquireHandle_some hid]
    have hx := hp.account id (hp.lt_of_handle hid)
    rw [hid] at hx
    rcases hx.of_some with ⟨hnonneg, hcount, -, hmarks, hdisposals⟩ | ⟨hm, -, -⟩
    · obtain ⟨htrue, hrefs⟩ := Handle.acquire_live hnonneg (hroom x hid)
      rw [htrue, taken, if_pos rfl]
      refine hp.setHandle hid rfl ?_
      simp only [hmarks, tally_append, tally_acquired, hdisposals, Nat.add_zero]
      exact .live (by omega) (by omega) (by omega)
    · rw [Handle.acquire_disposed hm, setHandle_same hp.nodup hid, taken,
        if_neg Bool.false_ne_true, List.append_nil]
      exact hp

theorem releaseHandle_none {p : Pool σ} {id : ClusterId} (hid : p.handle? id = none) :
    p.releaseHandle id = (false, p) := by
  unfold releaseHandle
  rw [hid]

theorem releaseHandle_kept {p : Pool σ} {id : ClusterId} {x : Handle} (hid : p.handle? id = some x)
    (hx : x.release.1 = false) : p.releaseHandle id = (false, p.setHandle id x.release.2) := by
  unfold releaseHandle
  simp only [hid, hx, Bool.false_eq_true, if_false]

theorem releaseHandle_last {p : Pool σ} {id : ClusterId} {x : Handle} (hid : p.handle? id = some x)
    (hx : x.release.1 = true) :
    p.releaseHandle id =
      (true, { (p.setHandle id x.release.2).closeResources id with
        cache := p.cache.evict x.key id }) := by
  unfold releaseHandle
  simp only [hid, hx, if_true]
  rfl

theorem givenBack_of_pos {p : Pool σ} {id : ClusterId} {x : Handle} (hid : p.handle? id = some x)
    (hpos : 0 < x.refs.toInt) : p.givenBack id = [.released id (p.releaseHandle id).1] := by
  unfold givenBack
  rw [hid]
  exact if_pos (x.refs_pos_iff.mpr hpos)

theorem givenBack_of_le {p : Pool σ} {id : ClusterId} {x : Handle} (hid : p.handle? id = some x)
    (hle : x.refs.toInt ≤ 0) : p.givenBack id = [] := by
  unfold givenBack
  rw [hid]
  refine if_neg ?_
  rw [x.refs_pos_iff]
  exact Int.not_lt.mpr hle

theorem releaseHandle_idle {p : Pool σ} {history : List RefEvent} (hp : p.Sound history)
    {id : ClusterId} {x : Handle} (hid : p.handle? id = some x) (hle : x.refs.toInt ≤ 0) :
    p.releaseHandle id = (false, p) := by
  have hnone := Handle.release_none (x.refs_le_zero_iff.mpr hle)
  rw [releaseHandle_kept hid (by rw [hnone]), hnone, setHandle_same hp.nodup hid]

theorem Sound.dispose {p : Pool σ} {history : List RefEvent} (hp : p.Sound history) {id : ClusterId}
    {x : Handle} (hid : p.handle? id = some x) (hone : x.refs.toInt = 1) :
    (p.releaseHandle id).2.Sound (history ++ [.released id true]) := by
  have hlast := Handle.release_last hone
  rw [releaseHandle_last hid (by rw [hlast])]
  have hx := hp.account id (hp.lt_of_handle hid)
  rw [hid] at hx
  rcases hx.of_some with ⟨-, -, -, hmarks, hdisposals⟩ | ⟨hm, -, -⟩
  · refine hp.touch id (hp.lt_of_handle hid) rfl (nodup_setHandle id _ hp.nodup) ?_ ?_
    · intro j hj
      refine ⟨handle?_setHandle_other p _ hj, ?_, tally_other (Ne.symm hj)⟩
      exact (marks_closeResources _ id j).trans (if_neg hj)
    · have hmarks' := (marks_closeResources (p.setHandle id x.release.2) id id).trans (if_pos rfl)
      have hthere : (p.setHandle id x.release.2).handle? id = some x.release.2 :=
        handle?_setHandle_self hid
      change Account ((p.setHandle id x.release.2).handle? id)
        (Marks.of ((p.setHandle id x.release.2).closeResources id).events id) _
      rw [hthere, hmarks', tally_append, tally_disposed, hdisposals]
      change Account _ (Marks.of p.events id).close _
      rw [hmarks]
      refine .disposed ?_
      intro h heq
      cases heq
      rw [hlast]
  · rw [hm] at hone
    exact absurd hone (by decide)

theorem Sound.releaseHandle {p : Pool σ} {history : List RefEvent} (hp : p.Sound history)
    (id : ClusterId) : (p.releaseHandle id).2.Sound (history ++ p.givenBack id) := by
  cases hid : p.handle? id with
  | none =>
    have hnone : p.givenBack id = [] := by rw [givenBack, hid]
    rw [releaseHandle_none hid, hnone, List.append_nil]
    exact hp
  | some x =>
    rcases Int.lt_trichotomy 1 x.refs.toInt with hmore | hone | hle
    · obtain ⟨hfalse, hrefs⟩ := Handle.release_more hmore
      rw [givenBack_of_pos hid (by omega), releaseHandle_kept hid hfalse]
      refine hp.setHandle hid rfl ?_
      have hx := hp.account id (hp.lt_of_handle hid)
      rw [hid] at hx
      rcases hx.of_some with ⟨-, hcount, -, hmarks, hdisposals⟩ | ⟨hm, -, -⟩
      · simp only [hmarks, tally_append, tally_kept, hdisposals, Nat.add_zero]
        exact .live (by omega) (by omega) (by omega)
      · rw [hm] at hmore
        exact absurd hmore (by decide)
    · have hlast := Handle.release_last hone.symm
      have htrue : (p.releaseHandle id).1 = true := by
        rw [releaseHandle_last hid (by rw [hlast])]
      rw [givenBack_of_pos hid (by omega), htrue]
      exact hp.dispose hid hone.symm
    · rw [givenBack_of_le hid (by omega), releaseHandle_idle hp hid (by omega), List.append_nil]
      exact hp

/-! ## Building -/

theorem Sound.grow {p q : Pool σ} {history : List RefEvent} (hp : p.Sound history)
    (hnext : q.nextId = p.nextId + 1) (hnodup : (q.handles.map Prod.fst).Nodup)
    (hothers : ∀ id, id ≠ p.nextId → q.handle? id = p.handle? id ∧
      Marks.of q.events id = Marks.of p.events id)
    (hself : Account (q.handle? p.nextId) (Marks.of q.events p.nextId) ⟨0, 0, 0⟩) :
    q.Sound history := by
  refine ⟨hnodup, ?_, ?_⟩
  · intro id hid
    rw [hnext] at hid
    have hne : id ≠ p.nextId := Nat.ne_of_gt hid
    rw [(hothers id hne).1, (hothers id hne).2]
    exact hp.later id (Nat.le_of_lt hid)
  · intro id hid
    rw [hnext] at hid
    by_cases hne : id = p.nextId
    · rw [hne, (hp.later p.nextId (Nat.le_refl _)).2.2]
      exact hself
    · rw [(hothers id hne).1, (hothers id hne).2]
      exact hp.account id (Nat.lt_of_le_of_ne (Nat.le_of_lt_succ hid) hne)

theorem marks_failed {events : List ClusterEvent} {id : ClusterId}
    (h : Marks.of events id = ⟨0, 0, 0, 0⟩) :
    Marks.of (.clusterClosed id :: .built id :: events) id = ⟨1, 0, 0, 1⟩ := by
  simp only [Marks.of, Marks.mk.injEq] at h
  simp [Marks.of, h]

theorem marks_connected {events : List ClusterEvent} {id : ClusterId}
    (h : Marks.of events id = ⟨0, 0, 0, 0⟩) :
    Marks.of (.connected id :: .built id :: events) id = ⟨1, 1, 0, 0⟩ := by
  simp only [Marks.of, Marks.mk.injEq] at h
  simp [Marks.of, h]

theorem not_mem_of_handle? {p : Pool σ} {id : ClusterId} (h : p.handle? id = none) :
    id ∉ p.handles.map Prod.fst := by
  intro hmem
  obtain ⟨entry, hentry, rfl⟩ := List.mem_map.mp hmem
  rw [handle?, List.lookup_eq_none_iff] at h
  have := h entry hentry
  simp at this

theorem Sound.loadFresh {p : Pool σ} {history : List RefEvent} (hp : p.Sound history)
    (b : Backend σ) (key : Params) : (p.loadFresh b key).2.Sound history := by
  obtain ⟨hnone, hmarks, -⟩ := hp.later p.nextId (Nat.le_refl _)
  have hbuilds := builds_loadFresh b key p
  generalize p.loadFresh b key = outcome at hbuilds
  cases hbuilds with
  | invalid => exact hp
  | unbuilt => exact hp.congr rfl rfl rfl
  | unconnected =>
    -- The cluster without a session is closed at once, and no handle is made.
    refine hp.grow rfl hp.nodup ?_ ?_
    · intro id hid
      refine ⟨rfl, ?_⟩
      simp [Marks.of, Ne.symm hid]
    · change Account (p.handle? p.nextId) _ _
      rw [hnone, marks_failed hmarks]
      exact .failed
  | @connected config =>
    refine hp.grow rfl ?_ ?_ ?_
    · change (p.nextId :: p.handles.map Prod.fst).Nodup
      exact List.nodup_cons.mpr ⟨not_mem_of_handle? hnone, hp.nodup⟩
    · intro id hid
      refine ⟨lookup_cons_other hid _, ?_⟩
      simp [Marks.of, Ne.symm hid]
    · change Account (((p.nextId, Handle.fresh key config) :: p.handles).lookup p.nextId) _ _
      rw [lookup_cons_self, marks_connected hmarks]
      exact .live rfl (Int.le_refl 0) (by omega)

/-! ## Dropping -/

theorem marks_closeAll (l : List (ClusterId × Handle)) (p : Pool σ) (id : ClusterId)
    (hn : (l.map Prod.fst).Nodup) :
    Marks.of (l.foldl (fun p entry => p.closeResources entry.1) p).events id =
      if id ∈ l.map Prod.fst then (Marks.of p.events id).close else Marks.of p.events id := by
  induction l generalizing p with
  | nil => simp
  | cons entry l ih =>
    rw [List.map_cons, List.nodup_cons] at hn
    rw [List.foldl_cons, ih _ hn.2, marks_closeResources, List.map_cons]
    by_cases hid : id = entry.1
    · -- Its number does not come again.
      rw [if_pos hid, hid, if_neg hn.1, if_pos List.mem_cons_self]
    · rw [if_neg hid]
      simp only [List.mem_cons, hid, false_or]

theorem nextId_closeAll (l : List (ClusterId × Handle)) (p : Pool σ) :
    (l.foldl (fun p entry => p.closeResources entry.1) p).nextId = p.nextId := by
  induction l generalizing p with
  | nil => rfl
  | cons entry l ih =>
    rw [List.foldl_cons, ih]
    rfl

/-- The handles that dropping closes. -/
def abandoned (p : Pool σ) : List (ClusterId × Handle) :=
  (p.handles.filter fun entry => !p.isHeld entry.1).filter fun entry => !entry.2.isDisposed

theorem mem_abandoned {p : Pool σ} (hn : (p.handles.map Prod.fst).Nodup) {id : ClusterId} :
    id ∈ p.abandoned.map Prod.fst ↔
      ∃ h, p.handle? id = some h ∧ p.isHeld id = false ∧ h.isDisposed = false := by
  unfold abandoned
  simp only [List.mem_map, List.mem_filter, Bool.not_eq_true']
  constructor
  · rintro ⟨⟨i, h⟩, ⟨⟨hmem, hheld⟩, hdisposed⟩, rfl⟩
    exact ⟨h, lookup_of_mem hn hmem, hheld, hdisposed⟩
  · rintro ⟨h, hid, hheld, hdisposed⟩
    exact ⟨(id, h), ⟨⟨mem_of_lookup hid, hheld⟩, hdisposed⟩, rfl⟩

theorem nodup_filter {α : Type} {l : List (ClusterId × α)} (keep : ClusterId × α → Bool)
    (hn : (l.map Prod.fst).Nodup) : ((l.filter keep).map Prod.fst).Nodup :=
  hn.sublist (List.filter_sublist.map Prod.fst)

theorem marks_sweep {p : Pool σ} (hn : (p.handles.map Prod.fst).Nodup) (id : ClusterId) :
    Marks.of p.sweep.events id =
      if id ∈ p.abandoned.map Prod.fst then (Marks.of p.events id).close else Marks.of p.events id :=
  marks_closeAll p.abandoned p id (nodup_filter _ (nodup_filter _ hn))

theorem nextId_sweep (p : Pool σ) : p.sweep.nextId = p.nextId := nextId_closeAll p.abandoned p

theorem handle?_sweep (p : Pool σ) (id : ClusterId) :
    p.sweep.handle? id = if p.isHeld id then p.handle? id else none :=
  lookup_filter p.isHeld

theorem Sound.sweep {p : Pool σ} {history : List RefEvent} (hp : p.Sound history) :
    p.sweep.Sound history := by
  refine ⟨nodup_filter _ hp.nodup, ?_, ?_⟩
  · intro id hid
    rw [nextId_sweep] at hid
    obtain ⟨hnone, hmarks, htally⟩ := hp.later id hid
    have hnot : id ∉ p.abandoned.map Prod.fst := by
      rw [mem_abandoned hp.nodup, hnone]
      rintro ⟨h, hh, -⟩
      cases hh
    rw [handle?_sweep, marks_sweep hp.nodup, if_neg hnot, hnone]
    exact ⟨ite_self _, hmarks, htally⟩
  · intro id hid
    rw [nextId_sweep] at hid
    have ha := hp.account id hid
    rw [handle?_sweep, marks_sweep hp.nodup]
    simp only [mem_abandoned hp.nodup]
    by_cases hheld : p.isHeld id = true
    · rw [if_pos hheld, if_neg (by simp [hheld])]
      exact ha
    · rw [if_neg hheld]
      rw [Bool.not_eq_true] at hheld
      split
      · rename_i hopen
        obtain ⟨h, hh, -, hlive⟩ := hopen
        rw [hh] at ha
        exact ha.drop_live hlive
      · rename_i hclosed
        refine ha.drop_disposed ?_
        intro h hh
        by_contra hlive
        exact hclosed ⟨h, hh, hheld, Bool.not_eq_true _ ▸ hlive⟩

end Pool

end WideRow
