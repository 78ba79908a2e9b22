import WideRow.Proofs.Record

/-!
# Which sources are pulled

Only the first of the sources that a cursor holds is ever pulled, and it is let go once it has told
its end. So no source is asked after that, whatever it would still answer.
-/

namespace WideRow

/-! ## Pulls from sources in turn -/

/-- A source is told apart by how many stand behind it. -/
structure Pull where
  behind : Nat
  answer : Result (Option Row)

/-- The pulls for one row: those of the sources that have finished, and of the first that has not. -/
def pullsOf : List RowSource → List Pull
  | [] => []
  | source :: rest =>
    match source.pull with
    | (.ok none, _) => ⟨rest.length, .ok none⟩ :: pullsOf rest
    | (answer, _) => [⟨rest.length, answer⟩]

section

variable {source after : RowSource} (rest : List RowSource)

theorem pull_ended (hpull : source.pull = (.ok none, after)) :
    pullsOf (source :: rest) = ⟨rest.length, .ok none⟩ :: pullsOf rest ∧
      ConcatSource.pullPending (source :: rest) = ConcatSource.pullPending rest := by
  rw [pullsOf, ConcatSource.pullPending, hpull]
  exact ⟨rfl, rfl⟩

theorem pull_kept {answer : Result (Option Row)} (hpull : source.pull = (answer, after))
    (hanswer : answer ≠ .ok none) :
    pullsOf (source :: rest) = [⟨rest.length, answer⟩] ∧
      ConcatSource.pullPending (source :: rest) = (answer, after :: rest) := by
  unfold pullsOf ConcatSource.pullPending
  rw [hpull]
  cases answer with
  | error error => exact ⟨rfl, rfl⟩
  | ok row? =>
    cases row? with
    | none => exact absurd rfl hanswer
    | some row => exact ⟨rfl, rfl⟩

end

/-- Pulling as logged, always from the first source that is left, and letting go of a source at its
end, leaves the sources on the right. All of them may be let go at any time. -/
inductive Pulled (sources : List RowSource) : List Pull → List RowSource → Prop
  | start : Pulled sources [] sources
  | kept {log : List Pull} {source after : RowSource} {rest : List RowSource}
      {answer : Result (Option Row)} (earlier : Pulled sources log (source :: rest))
      (hpull : source.pull = (answer, after)) (hanswer : answer ≠ .ok none) :
      Pulled sources (log ++ [⟨rest.length, answer⟩]) (after :: rest)
  | ended {log : List Pull} {source after : RowSource} {rest : List RowSource}
      (earlier : Pulled sources log (source :: rest)) (hpull : source.pull = (.ok none, after)) :
      Pulled sources (log ++ [⟨rest.length, .ok none⟩]) rest
  | released {log : List Pull} {left : List RowSource} (earlier : Pulled sources log left) :
      Pulled sources log []

section

variable {sources : List RowSource} {log : List Pull} {left : List RowSource}

theorem Pulled.pullPending (h : Pulled sources log left) :
    Pulled sources (log ++ pullsOf left) (ConcatSource.pullPending left).2 := by
  induction left generalizing log with
  | nil => simpa [pullsOf, ConcatSource.pullPending] using h
  | cons source rest ih =>
    cases hpull : source.pull with
    | mk answer after =>
      by_cases hended : answer = .ok none
      · subst hended
        obtain ⟨hlog, hleft⟩ := pull_ended rest hpull
        rw [hlog, hleft]
        simpa using ih (h.ended hpull)
      · obtain ⟨hlog, hleft⟩ := pull_kept rest hpull hended
        rw [hlog, hleft]
        exact h.kept hpull hended

theorem Pulled.left_le (h : Pulled sources log left) :
    ∀ p ∈ log, p.answer = .ok none → left.length ≤ p.behind := by
  induction h with
  | start => simp
  | kept earlier hpull hanswer ih =>
    intro p hp hended
    rcases List.mem_append.mp hp with hearlier | hnew
    · exact ih p hearlier hended
    · rw [List.mem_singleton.mp hnew] at hended
      exact absurd hended hanswer
  | ended earlier hpull ih =>
    intro p hp hended
    rcases List.mem_append.mp hp with hearlier | hnew
    · exact Nat.le_of_succ_le (ih p hearlier hended)
    · exact Nat.le_of_eq (congrArg Pull.behind (List.mem_singleton.mp hnew)).symm
  | released earlier ih => simp

/-- A source that has told its end is not pulled again. -/
theorem Pulled.pairwise (h : Pulled sources log left) :
    log.Pairwise fun p q => p.answer = .ok none → q.behind ≠ p.behind := by
  induction h with
  | start => exact .nil
  | kept earlier hpull hanswer ih | ended earlier hpull ih =>
    rw [List.pairwise_append]
    refine ⟨ih, List.pairwise_singleton _ _, ?_⟩
    intro p hp q hq hended
    rw [List.mem_singleton.mp hq]
    exact Nat.ne_of_lt (earlier.left_le p hp hended)
  | released earlier ih => exact ih

end

/-! ## Pulls of a cursor -/

namespace CursorRecord

/-- The sources that may still be pulled. -/
def held (r : CursorRecord) : List RowSource :=
  (r.source.map ConcatSource.pending).getD []

/-- The pulls for the next row. A row that was pulled before its turn takes none. -/
def pullsOfPull (r : CursorRecord) : List Pull :=
  match r.lookahead with
  | some _ => []
  | none => pullsOf r.held

/-- The pulls that a request makes. -/
def pulls (r : CursorRecord) : Request → List Pull
  | .call .next =>
    match r.ensureOpen, r.position with
    | .error _, _ => []
    | .ok _, .afterLast => []
    | .ok _, _ => r.pullsOfPull
  | .call .isLast =>
    match r.ensureOpen, r.position with
    | .ok _, .onRow _ => r.pullsOfPull
    | _, _ => []
  | _ => []

def pullLog (r : CursorRecord) : List Request → List Pull
  | [] => []
  | request :: requests => r.pulls request ++ (r.serve request).2.pullLog requests

end CursorRecord

namespace Cursor

def held (c : Cursor) : List RowSource :=
  c.toRecord.held

def pulls (c : Cursor) (request : Request) : List Pull :=
  c.toRecord.pulls request

def pullLog (c : Cursor) (requests : List Request) : List Pull :=
  c.toRecord.pullLog requests

theorem pullLog_cons (c : Cursor) (request : Request) (requests : List Request) :
    c.pullLog (request :: requests) =
      c.pulls request ++ (c.serve request).2.pullLog requests := by
  unfold pullLog
  rw [CursorRecord.pullLog, serve_toRecord]
  rfl

theorem held_congr {c d : Cursor} (h : d.state = c.state) : d.held = c.held := by
  unfold held CursorRecord.held toRecord
  rw [h]
  cases c.state <;> rfl

section

variable {sources : List RowSource} {log : List Pull} {c : Cursor}

theorem pulled_advance {rest : ConcatSource} (h : Pulled sources log rest.pending) (number : Nat)
    {stay : ConcatSource → CursorState}
    (hstay : ∀ left, (c.withState (stay left)).held = left.pending) :
    Pulled sources (log ++ pullsOf rest.pending) (c.advance number rest stay).2.held := by
  have hleft : Pulled sources (log ++ pullsOf rest.pending) rest.pull.2.pending := h.pullPending
  unfold advance
  split
  · rename_i hpull
    rw [hpull] at hleft
    rw [hstay]
    exact hleft
  · rename_i hpull
    rw [hpull] at hleft
    exact hleft
  · exact hleft.released

theorem pulled_silent (h : Pulled sources log c.held) {request : Request} {d : Cursor}
    (hpulls : c.pulls request = []) (hheld : d.held = c.held) :
    Pulled sources (log ++ c.pulls request) d.held := by
  rwa [hpulls, hheld, List.append_nil]

theorem pulled_next (h : Pulled sources log c.held) :
    Pulled sources (log ++ c.pulls (.call .next)) c.next.2.held := by
  obtain ⟨state, columns, wasNull, options⟩ := c
  cases state with
  | beforeFirst rest => exact pulled_advance h 1 fun _ => rfl
  | onRow number row ahead rest =>
    cases ahead with
    | none => exact pulled_advance h (number + 1) fun _ => rfl
    | some following => exact pulled_silent h rfl rfl
  | afterLast => exact pulled_silent h rfl rfl
  | closed position => exact pulled_silent h rfl rfl

theorem pulled_isLast (h : Pulled sources log c.held) :
    Pulled sources (log ++ c.pulls (.call .isLast)) c.isLast.2.held := by
  obtain ⟨state, columns, wasNull, options⟩ := c
  cases state with
  | beforeFirst rest => exact pulled_silent h rfl rfl
  | afterLast => exact pulled_silent h rfl rfl
  | closed position => exact pulled_silent h rfl rfl
  | onRow number row ahead rest =>
    cases ahead with
    | some following => exact pulled_silent h rfl rfl
    | none =>
      have hleft : Pulled sources (log ++ pullsOf rest.pending) rest.pull.2.pending := h.pullPending
      unfold isLast
      simp only
      split
      · rename_i hpull
        rw [hpull] at hleft
        exact hleft
      · rename_i hpull
        rw [hpull] at hleft
        exact hleft

theorem pulls_of_isQuiet (c : Cursor) {request : Request} (h : request.IsQuiet) :
    c.pulls request = [] := by
  unfold pulls CursorRecord.pulls
  split
  · exact h.elim
  · exact h.elim
  · rfl

theorem pulled_serve (h : Pulled sources log c.held) (request : Request) :
    Pulled sources (log ++ c.pulls request) (c.serve request).2.held := by
  rcases request.kinds with rfl | rfl | rfl | hquiet
  · exact pulled_next h
  · exact pulled_isLast h
  · have hpulls : c.pulls .close = [] := rfl
    rw [hpulls, List.append_nil]
    exact h.released
  · exact pulled_silent h (pulls_of_isQuiet c hquiet) (held_congr (state_serve c hquiet))

theorem pulled_run (h : Pulled sources log c.held) (requests : List Request) :
    Pulled sources (log ++ c.pullLog requests) (c.run requests).held := by
  induction requests generalizing c log with
  | nil =>
    rw [pullLog, CursorRecord.pullLog, List.append_nil]
    exact h
  | cons request requests ih =>
    rw [pullLog_cons, ← List.append_assoc]
    exact ih (pulled_serve h request)

end

theorem pulled_ofOutput (output : QueryOutput) (options : CursorOptions) (requests : List Request) :
    Pulled output.sources ((ofOutput output options).pullLog requests)
      ((ofOutput output options).run requests).held := by
  have hstart : Pulled output.sources [] (ofOutput output options).held := .start
  exact pulled_run hstart requests

end Cursor

end WideRow
