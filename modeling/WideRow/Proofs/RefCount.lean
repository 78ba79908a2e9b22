import WideRow.Proofs.Rounds
import WideRow.Session.Script

/-!
# The count of references

A handle counts its references in 32 bits. Below the greatest count a reference that is taken is
counted, and giving back the last one closes the session and its cluster, once. At the greatest
count one more makes the count negative, which is the mark of a disposed handle: references are no
longer taken or given back, and the session stays open.
-/

namespace WideRow

/-- What is asked of a handle. -/
inductive RefCall where
  | take
  | giveBack

/-- Calls that give back all of some references, the last one by the last call. The count stays
below its end. -/
inductive Settles : Int → List RefCall → Prop
  | last : Settles 1 [.giveBack]
  | take {n : Int} {calls : List RefCall} (room : n < 2147483647) (rest : Settles (n + 1) calls) :
      Settles n (.take :: calls)
  | giveBack {n : Int} {calls : List RefCall} (more : 1 < n) (rest : Settles (n - 1) calls) :
      Settles n (.giveBack :: calls)

namespace Handle

theorem acquire_greatest {h : Handle} (hfull : h.refs.toInt = 2147483647) :
    h.acquire.1 = true ∧ h.acquire.2.refs.toInt = -2147483648 := by
  have hlive : ¬ h.isDisposed = true := by
    rw [isDisposed_iff]
    omega
  have hrefs : h.refs = 2147483647 := Int32.toInt_inj.mp hfull
  unfold acquire
  rw [if_neg hlive, hrefs]
  exact ⟨rfl, rfl⟩

theorem release_disposed {h : Handle} (hdisposed : h.isDisposed = true) :
    h.release = (false, h) := by
  apply release_none
  rw [refs_le_zero_iff]
  rw [isDisposed_iff] at hdisposed
  omega

end Handle

namespace Pool

variable {σ : Type} {p : Pool σ} {id : ClusterId} {x : Handle}

def refer (id : ClusterId) (p : Pool σ) : RefCall → Bool × Pool σ
  | .take => p.acquireHandle id
  | .giveBack => p.releaseHandle id

def referAll (id : ClusterId) (p : Pool σ) (calls : List RefCall) : Pool σ :=
  calls.foldl (fun p call => (p.refer id call).2) p

theorem referAll_cons (call : RefCall) (calls : List RefCall) :
    p.referAll id (call :: calls) = (p.refer id call).2.referAll id calls :=
  rfl

theorem referAll_append (calls more : List RefCall) :
    p.referAll id (calls ++ more) = (p.referAll id calls).referAll id more :=
  List.foldl_append

/-! ## One call -/

theorem acquireHandle_counts (hid : p.handle? id = some x) (hnonneg : 0 ≤ x.refs.toInt)
    (hroom : x.refs.toInt < 2147483647) :
    ∃ y, p.acquireHandle id = (true, p.setHandle id y) ∧ y.refs.toInt = x.refs.toInt + 1 := by
  obtain ⟨htrue, hrefs⟩ := Handle.acquire_live hnonneg hroom
  refine ⟨x.acquire.2, ?_, hrefs⟩
  rw [acquireHandle_some hid, htrue]

theorem acquireHandle_greatest (hid : p.handle? id = some x) (hfull : x.refs.toInt = 2147483647) :
    ∃ y, p.acquireHandle id = (true, p.setHandle id y) ∧ y.refs.toInt = -2147483648 := by
  obtain ⟨htrue, hrefs⟩ := Handle.acquire_greatest hfull
  refine ⟨x.acquire.2, ?_, hrefs⟩
  rw [acquireHandle_some hid, htrue]

theorem releaseHandle_counts (hid : p.handle? id = some x) (hmore : 1 < x.refs.toInt) :
    ∃ y, p.releaseHandle id = (false, p.setHandle id y) ∧ y.refs.toInt = x.refs.toInt - 1 := by
  obtain ⟨hfalse, hrefs⟩ := Handle.release_more hmore
  exact ⟨x.release.2, releaseHandle_kept hid hfalse, hrefs⟩

theorem releaseHandle_closes (hid : p.handle? id = some x) (hone : x.refs.toInt = 1) :
    (p.releaseHandle id).2.events = .clusterClosed id :: .sessionClosed id :: p.events ∧
      ∃ y, (p.releaseHandle id).2.handle? id = some y ∧ y.isDisposed = true := by
  have hlast := Handle.release_last hone
  have hthere : (p.setHandle id x.release.2).handle? id = some x.release.2 :=
    handle?_setHandle_self hid
  rw [releaseHandle_last hid (by rw [hlast])]
  refine ⟨rfl, x.release.2, hthere, ?_⟩
  rw [hlast]
  rfl

theorem refer_disposed (hid : p.handle? id = some x) (hdisposed : x.isDisposed = true)
    (call : RefCall) : p.refer id call = (false, p.setHandle id x) := by
  cases call with
  | take =>
    have hacquire : x.acquire = (false, x) := if_pos hdisposed
    unfold refer
    rw [acquireHandle_some hid, hacquire]
  | giveBack =>
    have hrelease := Handle.release_disposed hdisposed
    unfold refer
    rw [releaseHandle_kept hid (by rw [hrelease]), hrelease]

/-! ## Runs of calls -/

theorem referAll_disposed (hid : p.handle? id = some x) (hdisposed : x.isDisposed = true)
    (calls : List RefCall) :
    (p.referAll id calls).events = p.events ∧ (p.referAll id calls).handle? id = some x := by
  induction calls generalizing p with
  | nil => exact ⟨rfl, hid⟩
  | cons call calls ih =>
    rw [referAll_cons, refer_disposed hid hdisposed call]
    exact ih (handle?_setHandle_self hid)

theorem referAll_settles {n : Int} {calls : List RefCall} (h : Settles n calls)
    (hid : p.handle? id = some x) (hcount : x.refs.toInt = n) (hnonneg : 0 ≤ n) :
    (p.referAll id calls).events = .clusterClosed id :: .sessionClosed id :: p.events ∧
      ∃ y, (p.referAll id calls).handle? id = some y ∧ y.isDisposed = true := by
  induction h generalizing p x with
  | last => exact releaseHandle_closes hid hcount
  | take room rest ih =>
    obtain ⟨y, htake, hy⟩ := acquireHandle_counts hid (by omega) (by omega)
    rw [referAll_cons, refer, htake]
    exact ih (handle?_setHandle_self hid) (by omega) (by omega)
  | giveBack more rest ih =>
    obtain ⟨y, hrelease, hy⟩ := releaseHandle_counts hid (by omega)
    rw [referAll_cons, refer, hrelease]
    exact ih (handle?_setHandle_self hid) (by omega) (by omega)

theorem settles_replicate (n : Nat) : Settles (n + 1) (List.replicate (n + 1) .giveBack) := by
  induction n with
  | zero => exact .last
  | succ n ih =>
    rw [List.replicate_succ]
    apply Settles.giveBack
    · omega
    · rw [Int.add_sub_cancel]
      exact_mod_cast ih

theorem referAll_takes (hid : p.handle? id = some x) (hnonneg : 0 ≤ x.refs.toInt) (n : Nat)
    (hroom : x.refs.toInt + n ≤ 2147483647) :
    (p.referAll id (List.replicate n .take)).events = p.events ∧
      ∃ y, (p.referAll id (List.replicate n .take)).handle? id = some y ∧
        y.refs.toInt = x.refs.toInt + n := by
  induction n generalizing p x with
  | zero => exact ⟨rfl, x, hid, (Int.add_zero _).symm⟩
  | succ n ih =>
    obtain ⟨y, htake, hy⟩ := acquireHandle_counts hid hnonneg (by omega)
    obtain ⟨hevents, z, hz, hcount⟩ := ih (p := p.setHandle id y) (handle?_setHandle_self hid)
      (by omega) (by omega)
    rw [List.replicate_succ, referAll_cons, refer, htake]
    exact ⟨hevents, z, hz, by omega⟩

/-! ## One reference more -/

/-- That a reference was counted: the handle has one more than before and is not disposed. Calls
that settle its references close the session and its cluster, and whatever is called later does not
close them again. -/
structure CountsOne (p q : Pool σ) (id : ClusterId) (before : Int) : Prop where
  counted : ∃ y, q.handle? id = some y ∧ y.refs.toInt = before + 1 ∧ 0 ≤ y.refs.toInt ∧
    y.isDisposed = false
  quiet : q.events = p.events
  closes : ∀ calls more, Settles (before + 1) calls →
    (q.referAll id (calls ++ more)).events = .clusterClosed id :: .sessionClosed id :: p.events

theorem countsOne_acquireHandle (hid : p.handle? id = some x) (hnonneg : 0 ≤ x.refs.toInt)
    (hroom : x.refs.toInt < 2147483647) :
    CountsOne p (p.acquireHandle id).2 id x.refs.toInt := by
  obtain ⟨y, htake, hy⟩ := acquireHandle_counts hid hnonneg hroom
  have hthere : (p.setHandle id y).handle? id = some y := handle?_setHandle_self hid
  rw [htake]
  refine ⟨⟨y, hthere, hy, by omega, ?_⟩, rfl, ?_⟩
  · rw [Handle.not_isDisposed_iff]
    omega
  · intro calls more h
    obtain ⟨hevents, z, hz, hdisposed⟩ := referAll_settles h hthere hy (by omega)
    rw [referAll_append, (referAll_disposed hz hdisposed more).1, hevents]
    rfl

theorem acquireHandle_stuck (hid : p.handle? id = some x) (hfull : x.refs.toInt = 2147483647) :
    ¬ CountsOne p (p.acquireHandle id).2 id x.refs.toInt ∧
      ∀ calls, ((p.acquireHandle id).2.referAll id calls).events = p.events := by
  obtain ⟨y, htake, hy⟩ := acquireHandle_greatest hid hfull
  have hthere : (p.setHandle id y).handle? id = some y := handle?_setHandle_self hid
  rw [htake]
  constructor
  · rintro ⟨⟨z, hz, -, hnonneg, -⟩, -, -⟩
    rw [hthere] at hz
    injection hz with hz
    subst hz
    omega
  · intro calls
    apply (referAll_disposed hthere _ calls).1
    rw [Handle.isDisposed_iff]
    omega

/-- A handle that is not disposed gives out a reference. The reference is counted exactly if the
count has room for it. -/
theorem acquireHandle_counts_iff (hid : p.handle? id = some x) (hlive : x.isDisposed = false) :
    (p.acquireHandle id).1 = true ∧
      (CountsOne p (p.acquireHandle id).2 id x.refs.toInt ↔ x.refs.toInt < 2147483647) := by
  rw [Handle.not_isDisposed_iff] at hlive
  have hgreatest := x.refs.toInt_lt
  by_cases hroom : x.refs.toInt < 2147483647
  · obtain ⟨y, htake, -⟩ := acquireHandle_counts hid hlive hroom
    exact ⟨by rw [htake], iff_of_true (countsOne_acquireHandle hid hlive hroom) hroom⟩
  · have hfull : x.refs.toInt = 2147483647 := by omega
    obtain ⟨y, htake, -⟩ := acquireHandle_greatest hid hfull
    exact ⟨by rw [htake], iff_of_false (acquireHandle_stuck hid hfull).1 (by omega)⟩

/-- One reference taken beside another, then both given back. -/
theorem acquireHandle_counts_iff_second :
    let b := Script.backend ⟨[], false⟩
    let p := (((start []).load b (.ofList [("host", "a")])).2.acquireHandle 0).2
    ((p.handle? 0).map fun h => (h.isDisposed, h.refs)) = some (false, 1) ∧
      CountsOne p (p.acquireHandle 0).2 0 1 ∧
      ((p.acquireHandle 0).2.referAll 0 [.giveBack, .giveBack, .take, .giveBack]).events =
        .clusterClosed 0 :: .sessionClosed 0 :: p.events := by
  intro b p
  obtain ⟨x, hid, hlive, hone⟩ : ∃ x, p.handle? 0 = some x ∧ x.isDisposed = false ∧ x.refs = 1 :=
    ⟨_, rfl, rfl, rfl⟩
  have hcounts : CountsOne p (p.acquireHandle 0).2 0 x.refs.toInt := by
    apply (acquireHandle_counts_iff hid hlive).2.mpr
    rw [hone]
    decide
  rw [hone] at hcounts
  refine ⟨by rw [hid, Option.map_some, hlive, hone], hcounts, ?_⟩
  exact hcounts.closes [.giveBack, .giveBack] [.take, .giveBack] (settles_replicate 1)

/-- A handle that was loaded and got as many references as the count can hold: the next one is given
out, too, and the handle looks disposed. Its session stays open whatever is called. -/
theorem acquireHandle_disposes_greatest :
    let b := Script.backend ⟨[], false⟩
    let p := ((start []).load b (.ofList [("host", "a")])).2
    let full := p.referAll 0 (List.replicate 2147483647 .take)
    let q := (full.acquireHandle 0).2
    (∃ x, full.handle? 0 = some x ∧ x.refs.toInt = 2147483647 ∧ x.isDisposed = false) ∧
      (full.acquireHandle 0).1 = true ∧
      (∃ y, q.handle? 0 = some y ∧ y.refs.toInt = -2147483648 ∧ y.isDisposed = true) ∧
      ¬ CountsOne full q 0 2147483647 ∧ ∀ calls, (q.referAll 0 calls).events = p.events := by
  intro b p full q
  obtain ⟨x, hid, hfresh⟩ : ∃ x, p.handle? 0 = some x ∧ x.refs = 0 := ⟨_, rfl, rfl⟩
  have hzero : x.refs.toInt = 0 := by
    rw [hfresh]
    rfl
  obtain ⟨hevents, y, hy, hcount⟩ := referAll_takes hid (by omega) 2147483647 (by omega)
  have hfull : y.refs.toInt = 2147483647 := by omega
  obtain ⟨z, htake, hz⟩ := acquireHandle_greatest hy hfull
  obtain ⟨hnot, hopen⟩ := acquireHandle_stuck hy hfull
  have hthere : q.handle? 0 = some z := by
    change ((p.referAll 0 (List.replicate 2147483647 .take)).acquireHandle 0).2.handle? 0 = some z
    rw [htake]
    exact handle?_setHandle_self hy
  refine ⟨⟨y, hy, hfull, ?_⟩, ?_, ⟨z, hthere, hz, ?_⟩, ?_, ?_⟩
  · rw [Handle.not_isDisposed_iff]
    omega
  · change ((p.referAll 0 (List.replicate 2147483647 .take)).acquireHandle 0).1 = true
    rw [htake]
  · rw [Handle.isDisposed_iff]
    omega
  · rwa [hfull] at hnot
  · intro calls
    exact (hopen calls).trans hevents

end Pool

end WideRow
