import WideRow.Cursor.Basic

/-! # What a cursor delivers, and in which order -/

namespace WideRow

/-! ## The items of sources -/

/-- The rows and errors that answers stand for, up to the first end. Values that are not as many as
the columns stand for an error. -/
def SourceAnswer.items (columns : Columns) : List SourceAnswer → List (Result Row)
  | [] => []
  | .finished :: _ => []
  | .failure error :: rest => .error error :: items columns rest
  | .values given :: rest =>
    (if h : given.length = columns.length then .ok ⟨columns, given, h⟩
      else .error (Row.widthError given.length columns.length)) :: items columns rest

def RowSource.items (s : RowSource) : List (Result Row) :=
  SourceAnswer.items s.columns s.answers

def ConcatSource.items (s : ConcatSource) : List (Result Row) :=
  s.pending.flatMap RowSource.items

def QueryOutput.items : QueryOutput → List (Result Row)
  | .single source => source.items
  | .multi sources => sources.flatMap RowSource.items

theorem QueryOutput.items_eq (output : QueryOutput) :
    output.items = output.sources.flatMap RowSource.items := by
  cases output with
  | single source => exact (List.append_nil _).symm
  | multi sources => rfl

/-- A pull takes the first of the items and leaves the rest. -/
inductive Takes : List (Result Row) → Result (Option Row) → List (Result Row) → Prop
  | row {row : Row} {rest : List (Result Row)} : Takes (.ok row :: rest) (.ok (some row)) rest
  | failure {error : ClientError} {rest : List (Result Row)} :
      Takes (.error error :: rest) (.error error) rest
  | finished : Takes [] (.ok none) []

theorem Takes.append {items rest more : List (Result Row)} {answer : Result (Option Row)}
    (h : Takes items answer rest) (hne : answer ≠ .ok none) :
    Takes (items ++ more) answer (rest ++ more) := by
  cases h with
  | row => exact .row
  | failure => exact .failure
  | finished => exact absurd rfl hne

theorem RowSource.takes_pull {s after : RowSource} {answer : Result (Option Row)}
    (h : s.pull = (answer, after)) :
    answer = .ok none ∧ s.items = [] ∨ answer ≠ .ok none ∧ Takes s.items answer after.items := by
  -- A source that has finished is not asked again, so what it would still hold is no matter.
  obtain ⟨columns, answers⟩ := s
  match answers with
  | [] =>
    cases h
    exact .inl ⟨rfl, rfl⟩
  | .finished :: rest =>
    cases h
    exact .inl ⟨rfl, rfl⟩
  | .failure error :: rest =>
    cases h
    exact .inr ⟨by simp, .failure⟩
  | .values given :: rest =>
    right
    simp only [pull, Prod.mk.injEq] at h
    obtain ⟨rfl, rfl⟩ := h
    have hitems : items ⟨columns, .values given :: rest⟩ =
        Row.ofValues columns given :: items ⟨columns, rest⟩ := rfl
    rw [hitems]
    cases Row.ofValues columns given with
    | error error => exact ⟨nofun, .failure⟩
    | ok row => exact ⟨nofun, .row⟩

theorem ConcatSource.takes_pullPending (sources : List RowSource) :
    Takes (sources.flatMap RowSource.items) (pullPending sources).1
      ((pullPending sources).2.flatMap RowSource.items) := by
  induction sources with
  | nil => exact .finished
  | cons source rest ih =>
    rw [List.flatMap_cons, pullPending]
    cases hp : source.pull with
    | mk answer after =>
      rcases RowSource.takes_pull hp with ⟨rfl, hitems⟩ | ⟨hne, htakes⟩
      · rw [hitems, List.nil_append]
        exact ih
      · split
        · rename_i heq
          cases heq
          exact absurd rfl hne
        · rename_i heq
          cases heq
          rw [List.flatMap_cons]
          exact htakes.append hne

theorem ConcatSource.takes_pull (s : ConcatSource) : Takes s.items s.pull.1 s.pull.2.items :=
  takes_pullPending s.pending

/-! ## Calls and what they tell -/

/-- The calls to a cursor that is not closed. -/
inductive Call : Type 1 where
  | next
  | isLast
  | get {α : Type} (column : ColumnRef) (read : Cell → Result α)
  | findColumn (name : String)
  | metadata
  | moveTo (move : RandomMove)
  | setFetchDirection (direction : FetchDirection)
  | setFetchSize (size : Int32)

def Call.isNext : Call → Bool
  | next => true
  | _ => false

/-- What a call tells of the rows: that the cursor has moved to a row, under its number; that a
source failed; or that there are no more rows. -/
inductive Event where
  | row (number : Nat) (row : Row)
  | failure (error : ClientError)
  | ended

namespace Cursor

/-- The cursor that a call leaves. -/
def after (c : Cursor) : Call → Cursor
  | .next => c.next.2
  | .isLast => c.isLast.2
  | .get column read => (c.get column read).2
  | .setFetchDirection direction => (c.setFetchDirection direction).2
  | .setFetchSize size => (c.setFetchSize size).2
  | .findColumn _ | .metadata | .moveTo _ => c

/-- What the answer of a move tells, with the cursor that it leaves. -/
def moveEvents : Result Bool × Cursor → List Event
  | (.error error, _) => [.failure error]
  | (.ok true, c) => (c.current?.map (.row c.rowNumber)).toList
  | (.ok false, _) => [.ended]

def events (c : Cursor) : Call → List Event
  | .next => moveEvents c.next
  | .isLast =>
    match c.isLast.1 with
    | .error error => [.failure error]
    | .ok _ => []
  | _ => []

/-- The cursor that calls leave, one after the other. -/
def afterAll (c : Cursor) (calls : List Call) : Cursor :=
  calls.foldl after c

/-- What the calls tell one after the other. -/
def log (c : Cursor) : List Call → List Event
  | [] => []
  | call :: calls => c.events call ++ (c.after call).log calls

end Cursor

/-- The events of delivering items when `done` rows have been delivered. -/
def numbered (done : Nat) : List (Result Row) → List Event
  | [] => []
  | .ok row :: rest => .row (done + 1) row :: numbered (done + 1) rest
  | .error error :: rest => .failure error :: numbered done rest

def goodRows (items : List (Result Row)) : List Row :=
  items.filterMap Except.toOption

/-- The row and its number, of an event that tells of one. -/
def Event.row? : Event → Option (Row × Nat)
  | .row number delivered => some (delivered, number)
  | _ => none

theorem rows_numbered (done : Nat) (items : List (Result Row)) :
    (numbered done items).filterMap Event.row? = (goodRows items).zipIdx (done + 1) := by
  unfold goodRows
  induction items generalizing done with
  | nil => rfl
  | cons item items ih =>
    cases item with
    | ok row =>
      simp only [numbered, List.filterMap_cons, Event.row?, Except.toOption, List.zipIdx_cons, ih]
    | error error => simp only [numbered, List.filterMap_cons, Event.row?, Except.toOption, ih]

/-! ## One call -/

namespace Cursor

/-- The cursor has delivered `done` rows and has `todo` to deliver. The row that was looked at
before its turn comes first. -/
def Stands (c : Cursor) (done : Nat) (todo : List (Result Row)) : Prop :=
  match c.state with
  | .beforeFirst rest => done = 0 ∧ todo = rest.items
  | .onRow number _ ahead rest => done = number ∧ todo = (ahead.map Except.ok).toList ++ rest.items
  | .afterLast => todo = []
  | .closed _ => False

/-- Delivering from `todo` leaves `rest`. -/
inductive Delivers (done : Nat) : List (Result Row) → List Event → Nat → List (Result Row) → Prop
  | nothing {todo : List (Result Row)} : Delivers done todo [] done todo
  | row {row : Row} {rest : List (Result Row)} :
      Delivers done (.ok row :: rest) [.row (done + 1) row] (done + 1) rest
  | failure {error : ClientError} {rest : List (Result Row)} :
      Delivers done (.error error :: rest) [.failure error] done rest
  | ended : Delivers done [] [.ended] done []

theorem stands_ofOutput (output : QueryOutput) (options : CursorOptions) :
    (ofOutput output options).Stands 0 output.items :=
  ⟨rfl, output.items_eq⟩

theorem stands_congr {c d : Cursor} {done : Nat} {todo : List (Result Row)} (h : d.state = c.state)
    (hc : c.Stands done todo) : d.Stands done todo := by
  unfold Stands at hc ⊢
  rw [h]
  exact hc

theorem state_get {α : Type} (c : Cursor) (column : ColumnRef) (read : Cell → Result α) :
    (c.get column read).2.state = c.state := by
  unfold get
  split <;> rfl

theorem state_setFetchDirection (c : Cursor) (direction : FetchDirection) :
    (c.setFetchDirection direction).2.state = c.state := by
  unfold setFetchDirection
  split
  · rfl
  · split <;> rfl

theorem state_setFetchSize (c : Cursor) (size : Int32) : (c.setFetchSize size).2.state = c.state := by
  unfold setFetchSize
  split
  · rfl
  · split <;> rfl

/-- A call delivers what comes next or nothing, and the cursor stands where that leaves it. -/
def Steps (c : Cursor) (call : Call) (done : Nat) (todo : List (Result Row)) : Prop :=
  ∃ done' rest, Delivers done todo (c.events call) done' rest ∧ (c.after call).Stands done' rest

theorem steps_of_silent {c : Cursor} {call : Call} {done : Nat} {todo : List (Result Row)}
    (h : c.Stands done todo) (hevents : c.events call = []) (hstate : (c.after call).state = c.state) :
    c.Steps call done todo := by
  refine ⟨done, todo, ?_, stands_congr hstate h⟩
  rw [hevents]
  exact .nothing

theorem events_of_next {c after : Cursor} {answer : Result Bool} (h : c.next = (answer, after)) :
    c.after .next = after ∧ c.events .next = moveEvents (answer, after) := by
  unfold events Cursor.after
  rw [h]
  exact ⟨rfl, rfl⟩

theorem steps_advance {c : Cursor} {done : Nat} {source : ConcatSource}
    {stay : ConcatSource → CursorState} (hnext : c.next = c.advance (done + 1) source stay)
    (hstay : ∀ rest, (c.withState (stay rest)).Stands done rest.items) :
    c.Steps .next done source.items ∧ c.events .next ≠ [] := by
  have htakes := source.takes_pull
  unfold advance at hnext
  cases hpull : source.pull with
  | mk answer rest =>
    rw [hpull] at htakes hnext
    have hrest := hstay rest
    -- The cases of `htakes` need the items as variables.
    generalize source.items = todo at htakes ⊢
    generalize hitems : rest.items = left at htakes hrest
    unfold Steps
    cases htakes with
    | row =>
      obtain ⟨hafter, hevents⟩ := events_of_next hnext
      rw [hafter, hevents]
      exact ⟨⟨done + 1, left, .row, rfl, hitems.symm⟩, List.cons_ne_nil _ _⟩
    | failure =>
      obtain ⟨hafter, hevents⟩ := events_of_next hnext
      rw [hafter, hevents]
      exact ⟨⟨done, left, .failure, hrest⟩, List.cons_ne_nil _ _⟩
    | finished =>
      obtain ⟨hafter, hevents⟩ := events_of_next hnext
      rw [hafter, hevents]
      exact ⟨⟨done, [], .ended, rfl⟩, List.cons_ne_nil _ _⟩

theorem steps_next {c : Cursor} {done : Nat} {todo : List (Result Row)} (h : c.Stands done todo) :
    c.Steps .next done todo ∧ c.events .next ≠ [] := by
  obtain ⟨state, columns, wasNull, options⟩ := c
  cases state with
  | beforeFirst rest =>
    obtain ⟨rfl, rfl⟩ := h
    exact steps_advance rfl fun rest => ⟨rfl, rfl⟩
  | onRow number row ahead rest =>
    obtain ⟨rfl, rfl⟩ := h
    cases ahead with
    | none => exact steps_advance rfl fun rest => ⟨rfl, rfl⟩
    | some next =>
      -- The row that was looked at has its turn, and no source is asked.
      exact ⟨⟨done + 1, rest.items, .row, rfl, rfl⟩, List.cons_ne_nil _ _⟩
  | afterLast =>
    cases h
    exact ⟨⟨done, [], .ended, rfl⟩, List.cons_ne_nil _ _⟩
  | closed position => exact h.elim

theorem steps_isLast {c : Cursor} {done : Nat} {todo : List (Result Row)} (h : c.Stands done todo) :
    c.Steps .isLast done todo := by
  obtain ⟨state, columns, wasNull, options⟩ := c
  cases state with
  | beforeFirst rest => exact steps_of_silent h rfl rfl
  | afterLast => exact steps_of_silent h rfl rfl
  | closed position => exact h.elim
  | onRow number row ahead source =>
    cases ahead with
    | some next => exact steps_of_silent h rfl rfl
    | none =>
      obtain ⟨rfl, rfl⟩ := h
      have htakes := source.takes_pull
      unfold Steps events after isLast
      cases hpull : source.pull with
      | mk answer rest =>
        rw [hpull] at htakes
        simp only [hpull, Option.map_none, Option.toList_none, List.nil_append]
        generalize source.items = todo at htakes ⊢
        generalize hitems : rest.items = left at htakes
        cases htakes with
        | row => exact ⟨done, _, .nothing, rfl, by rw [hitems]; rfl⟩
        | failure => exact ⟨done, left, .failure, rfl, hitems.symm⟩
        | finished => exact ⟨done, [], .nothing, rfl, hitems.symm⟩

theorem steps_call {c : Cursor} {done : Nat} {todo : List (Result Row)} (h : c.Stands done todo)
    (call : Call) : c.Steps call done todo := by
  cases call with
  | next => exact (steps_next h).1
  | isLast => exact steps_isLast h
  | get column read => exact steps_of_silent h rfl (state_get c column read)
  | findColumn name => exact steps_of_silent h rfl rfl
  | metadata => exact steps_of_silent h rfl rfl
  | moveTo move => exact steps_of_silent h rfl rfl
  | setFetchDirection direction => exact steps_of_silent h rfl (state_setFetchDirection c direction)
  | setFetchSize size => exact steps_of_silent h rfl (state_setFetchSize c size)

/-- Moving on tells one thing. Looking ahead tells an error or nothing, and no other call tells
anything. -/
structure Tells (c : Cursor) : Prop where
  next : (c.events .next).length = 1
  isLast : c.events .isLast = [] ∨ ∃ error, c.events .isLast = [.failure error]
  silent (call : Call) (hnext : call ≠ .next) (hlast : call ≠ .isLast) : c.events call = []

theorem length_events_next {c : Cursor} {done : Nat} {todo : List (Result Row)}
    (h : c.Stands done todo) : (c.events .next).length = 1 := by
  obtain ⟨⟨done', rest, hdelivers, -⟩, hsome⟩ := steps_next h
  generalize c.events .next = events at hdelivers hsome ⊢
  rcases hdelivers
  · exact absurd rfl hsome
  · rfl
  · rfl
  · rfl

theorem tells_of_stands {c : Cursor} {done : Nat} {todo : List (Result Row)}
    (h : c.Stands done todo) : c.Tells := by
  refine ⟨length_events_next h, ?_, ?_⟩
  · unfold events
    rcases c.isLast.1 with error | last
    · exact .inr ⟨error, rfl⟩
    · exact .inl rfl
  · intro call hnext hlast
    unfold events
    split
    · exact absurd rfl hnext
    · exact absurd rfl hlast
    · rfl

/-! ## Any calls -/

theorem log_of_stands {c : Cursor} {done : Nat} {todo : List (Result Row)} (h : c.Stands done todo)
    (calls : List Call) :
    ∃ n m, c.log calls = (numbered done todo).take n ++ List.replicate m .ended ∧
      (0 < m → todo.length ≤ n) := by
  induction calls generalizing c done todo with
  | nil => exact ⟨0, 0, rfl, by omega⟩
  | cons call calls ih =>
    obtain ⟨done', rest, hdelivers, hstands⟩ := steps_call h call
    obtain ⟨n, m, hlog, hended⟩ := ih hstands
    rw [log, hlog]
    generalize c.events call = events at hdelivers ⊢
    cases hdelivers with
    | nothing => exact ⟨n, m, rfl, hended⟩
    | row =>
      refine ⟨n + 1, m, rfl, ?_⟩
      intro hm
      rw [List.length_cons]
      exact Nat.succ_le_succ (hended hm)
    | failure =>
      refine ⟨n + 1, m, rfl, ?_⟩
      intro hm
      rw [List.length_cons]
      exact Nat.succ_le_succ (hended hm)
    | ended => exact ⟨0, m + 1, by simp [numbered, List.replicate_succ], fun _ => Nat.le_refl _⟩

theorem stands_afterAll {c : Cursor} {done : Nat} {todo : List (Result Row)}
    (h : c.Stands done todo) (calls : List Call) :
    ∃ done' rest, (c.afterAll calls).Stands done' rest := by
  induction calls generalizing c done todo with
  | nil => exact ⟨done, todo, h⟩
  | cons call calls ih =>
    obtain ⟨done', rest, -, hstands⟩ := steps_call h call
    exact ih hstands

theorem length_log {c : Cursor} {done : Nat} {todo : List (Result Row)} (h : c.Stands done todo)
    (calls : List Call) : calls.countP Call.isNext ≤ (c.log calls).length := by
  induction calls generalizing c done todo with
  | nil => exact Nat.le_refl _
  | cons call calls ih =>
    obtain ⟨done', rest, -, hstands⟩ := steps_call h call
    have hlater := ih hstands
    rw [List.countP_cons, log, List.length_append]
    split
    · rename_i hcall
      cases call <;> cases hcall
      have := List.length_pos_iff.mpr (steps_next h).2
      omega
    · omega

theorem rows_log {items : List (Result Row)} {events : List Event} {n m : Nat}
    (h : events = (numbered 0 items).take n ++ List.replicate m .ended) :
    events.filterMap Event.row? <+: (goodRows items).zipIdx 1 := by
  have hended : (List.replicate m Event.ended).filterMap Event.row? = [] := by
    simp [List.filterMap_replicate, Event.row?]
  rw [h, List.filterMap_append, hended, List.append_nil, ← Nat.zero_add 1, ← rows_numbered]
  exact List.IsPrefix.filterMap Event.row? ⟨_, List.take_append_drop n _⟩

/-- Whatever the calls, a cursor tells of the rows and errors of all sources in their order, each
once, and tells of the end only after all of them; the row told of at the `k`-th time is the `k`-th
good row and has the number `k`. Each call to move on is answered with one of these, and looking
ahead with an error at most. -/
theorem log_ofOutput (output : QueryOutput) (options : CursorOptions) (calls : List Call) :
    (∃ n m, (ofOutput output options).log calls =
        (numbered 0 output.items).take n ++ List.replicate m .ended ∧
          (0 < m → output.items.length ≤ n)) ∧
      ((ofOutput output options).log calls).filterMap Event.row? <+:
        (goodRows output.items).zipIdx 1 ∧
      calls.countP Call.isNext ≤ ((ofOutput output options).log calls).length ∧
      ((ofOutput output options).afterAll calls).Tells := by
  have hstart := stands_ofOutput output options
  obtain ⟨n, m, hlog, hended⟩ := log_of_stands hstart calls
  obtain ⟨done, todo, hstands⟩ := stands_afterAll hstart calls
  exact ⟨⟨n, m, hlog, hended⟩, rows_log hlog, length_log hstart calls, tells_of_stands hstands⟩

/-- A source that fails, one without rows, and one that begins with a row of a wrong width and would
go on after its end. -/
theorem log_ofOutput_two_failures :
    let output : QueryOutput :=
      .multi [⟨[], [.values [], .failure .connectionClosed]⟩, ⟨[], []⟩,
        ⟨[], [.values [none], .values [], .finished, .values []]⟩]
    let c := ofOutput output .default
    let calls : List Call := [.next, .isLast, .isLast, .isLast, .next, .next, .next]
    let row : Row := ⟨[], [], rfl⟩
    let wide := "row has 1 values for 0 columns"
    c.log calls = [.row 1 row, .failure .connectionClosed, .failure (.internal wide), .row 2 row,
        .ended, .ended] ∧
      (c.log calls).filterMap Event.row? <+: (goodRows output.items).zipIdx 1 ∧
      (goodRows output.items).zipIdx 1 = [(row, 1), (row, 2)] ∧
      (c.afterAll calls).Tells := by
  intro output c calls row wide
  obtain ⟨-, hrows, -, htells⟩ := log_ofOutput output .default calls
  exact ⟨rfl, hrows, rfl, htells⟩

end Cursor

end WideRow
