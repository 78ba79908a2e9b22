import WideRow.Proofs.PoolSteps
import WideRow.Proofs.RefCount
import WideRow.Proofs.Served

/-!
# A count that overflows

Who has a handle may take one reference after another. The one that follows the greatest count makes
the handle look disposed, while it is cached and its session is open.
-/

namespace WideRow.Pool

variable {σ : Type} {p : Pool σ} {id : ClusterId} {x : Handle} {holder : Holder}

theorem setHandle_setHandle (p : Pool σ) (id : ClusterId) (y z : Handle) :
    (p.setHandle id y).setHandle id z = p.setHandle id z := by
  unfold setHandle
  simp only [List.map_map]
  congr 2
  funext entry
  by_cases h : entry.1 = id <;> simp [h]

theorem Swept.setHandle (hp : p.Swept) (id : ClusterId) (y : Handle) : (p.setHandle id y).Swept := by
  intro i hi
  rw [ids_setHandle] at hi
  exact hp i hi

theorem perform_take (b : Backend σ) (hp : p.Swept) (hheld : p.held? holder = some id)
    (hid : p.handle? id = some x) :
    (p.perform b (.take holder)).2 = p.setHandle id x.acquire.2 := by
  simp only [perform, hheld]
  rw [acquireHandle_some hid, sweep_of_swept (hp.setHandle id _)]

theorem perform_take_again (b : Backend σ) (hp : p.Swept) (hheld : p.held? holder = some id)
    (hid : p.handle? id = some x) (y : Handle) :
    ((p.setHandle id y).perform b (.take holder)).2 = p.setHandle id y.acquire.2 := by
  have hthere : (p.setHandle id y).handle? id = some y := handle?_setHandle_self hid
  rw [perform_take b (hp.setHandle id y) hheld hthere, setHandle_setHandle]

theorem foldl_take (b : Backend σ) (hp : p.Swept) (hheld : p.held? holder = some id)
    (hid : p.handle? id = some x) (hnonneg : 0 ≤ x.refs.toInt) (n : Nat)
    (hroom : x.refs.toInt + n < 2147483647) :
    ∃ y, (List.replicate (n + 1) (.take holder)).foldl (fun p call => (p.perform b call).2) p =
        p.setHandle id y ∧ y.key = x.key ∧ y.refs.toInt = x.refs.toInt + n + 1 := by
  induction n with
  | zero =>
    have hone := (Handle.acquire_live hnonneg (by omega)).2
    exact ⟨x.acquire.2, perform_take b hp hheld hid, x.key_acquire, by omega⟩
  | succ n ih =>
    obtain ⟨y, htaken, hkey, hcount⟩ := ih (by omega)
    have hone := (Handle.acquire_live (h := y) (by omega) (by omega)).2
    refine ⟨y.acquire.2, ?_, y.key_acquire.trans hkey, by omega⟩
    rw [List.replicate_succ', List.foldl_append, htaken]
    exact perform_take_again b hp hheld hid y

/-- A call that leaves a handle without references to a holder, who takes one more than can be
counted. -/
theorem run_overflow {b : Backend σ} {backend : σ} {first : PoolCall} (holder : Holder)
    (hheld : ((start backend).perform b first).2.held? holder = some id)
    (hid : ((start backend).perform b first).2.handle? id = some x) (hnone : x.refs.toInt = 0) :
    ∃ y, (run b backend (first :: List.replicate 2147483648 (.take holder))).2 =
        ((start backend).perform b first).2.setHandle id y ∧
      y.key = x.key ∧ y.refs.toInt = -2147483648 := by
  have hstart : (start backend).Swept := nofun
  have hswept := hstart.perform (b := b) first
  obtain ⟨y, htaken, hkey, hcount⟩ :=
    foldl_take b hswept hheld hid (by omega) 2147483646 (by omega)
  refine ⟨y.acquire.2, ?_, y.key_acquire.trans hkey, (Handle.acquire_greatest (by omega)).2⟩
  rw [run_snd, List.foldl_cons, List.replicate_succ' (n := 2147483647), List.foldl_append, htaken]
  exact perform_take_again b hswept hheld hid y

end WideRow.Pool
