import WideRow.Proofs.Quiet

/-!
# What lies ahead of a cursor

A client never sees how far a cursor has read: whatever it is told follows from where the cursor
stands and from the items that are still to come, a row that was read early included. A look ahead
changes neither, unless it meets an error.
-/

namespace WideRow

/-! ## Prospects -/

/-- Where a cursor stands, on which row, and what it has to deliver from there. -/
inductive Prospect where
  | beforeFirst (todo : List (Result Row))
  | onRow (number : Nat) (row : Row) (todo : List (Result Row))
  | afterLast
  | closed (position : Position)

namespace Prospect

def todo : Prospect → List (Result Row)
  | beforeFirst todo | onRow _ _ todo => todo
  | afterLast | closed _ => []

/-- Takes the first item: a row is moved to, an error is told, and without items the end is. -/
def take (number : Nat) (stay : List (Result Row) → Prospect) :
    List (Result Row) → Result Bool × Prospect
  | [] => (.ok false, afterLast)
  | .ok row :: rest => (.ok true, onRow number row rest)
  | .error error :: rest => (.error error, stay rest)

def next : Prospect → Result Bool × Prospect
  | beforeFirst todo => take 1 beforeFirst todo
  | onRow number row todo => take (number + 1) (onRow number row) todo
  | afterLast => (.ok false, afterLast)
  | closed position => (.error .cursorClosed, closed position)

def isLast : Prospect → Result Bool × Prospect
  | onRow number row (.error error :: rest) => (.error error, onRow number row rest)
  | onRow number row todo => (.ok todo.isEmpty, onRow number row todo)
  | closed position => (.error .cursorClosed, closed position)
  | p => (.ok false, p)

end Prospect

namespace Cursor

def prospect (c : Cursor) : Prospect :=
  match c.state with
  | .beforeFirst rest => .beforeFirst rest.items
  | .onRow number row ahead rest => .onRow number row ((ahead.map Except.ok).toList ++ rest.items)
  | .afterLast => .afterLast
  | .closed position => .closed position

theorem prospect_congr {c d : Cursor} (h : d.state = c.state) : d.prospect = c.prospect := by
  unfold prospect
  rw [h]

/-! ## Moving -/

theorem prospect_advance {c : Cursor} {number : Nat} {rest : ConcatSource}
    {stay : ConcatSource → CursorState} {stay' : List (Result Row) → Prospect}
    (hstay : ∀ rest, (c.withState (stay rest)).prospect = stay' rest.items) :
    ((c.advance number rest stay).1, (c.advance number rest stay).2.prospect) =
      Prospect.take number stay' rest.items := by
  have htakes := rest.takes_pull
  unfold advance
  cases hpull : rest.pull with
  | mk answer left =>
    rw [hpull] at htakes
    have hleft := hstay left
    -- The cases of `htakes` need the items as variables.
    generalize rest.items = todo at htakes ⊢
    generalize hitems : left.items = items at htakes hleft
    cases htakes with
    | row => simp [Prospect.take, prospect, withState, hitems]
    | failure => simp [Prospect.take, hleft]
    | finished => rfl

theorem outcome_next (c : Cursor) : (c.next.1, c.next.2.prospect) = c.prospect.next := by
  obtain ⟨state, columns, wasNull, options⟩ := c
  cases state with
  | beforeFirst rest => exact prospect_advance fun _ => rfl
  | onRow number row ahead rest =>
    cases ahead with
    | none => exact prospect_advance fun _ => rfl
    | some following => rfl
  | afterLast => rfl
  | closed position => rfl

theorem outcome_isLast (c : Cursor) : (c.isLast.1, c.isLast.2.prospect) = c.prospect.isLast := by
  obtain ⟨state, columns, wasNull, options⟩ := c
  cases state with
  | beforeFirst rest => rfl
  | afterLast => rfl
  | closed position => rfl
  | onRow number row ahead source =>
    cases ahead with
    | some following => rfl
    | none =>
      have htakes := source.takes_pull
      unfold isLast prospect
      cases hpull : source.pull with
      | mk answer left =>
        rw [hpull] at htakes
        simp only [hpull, Option.map_none, Option.toList_none, List.nil_append]
        generalize source.items = todo at htakes ⊢
        generalize hitems : left.items = items at htakes
        cases htakes with
        | row => simp [Prospect.isLast, withState, hitems]
        | failure => simp [Prospect.isLast, withState, hitems]
        | finished => simp [Prospect.isLast, withState, hitems]

theorem next_eq (c : Cursor) : c.next.1 = c.prospect.next.1 :=
  congrArg Prod.fst (outcome_next c)

theorem prospect_next (c : Cursor) : c.next.2.prospect = c.prospect.next.2 :=
  congrArg Prod.snd (outcome_next c)

theorem isLast_eq (c : Cursor) : c.isLast.1 = c.prospect.isLast.1 :=
  congrArg Prod.fst (outcome_isLast c)

theorem prospect_isLast (c : Cursor) : c.isLast.2.prospect = c.prospect.isLast.2 :=
  congrArg Prod.snd (outcome_isLast c)

section

variable {P : Prospect → Prop} (hnext : ∀ p, P p → P p.next.2) (hisLast : ∀ p, P p → P p.isLast.2)
  (hclosed : ∀ position, P (.closed position))
include hnext hisLast hclosed

theorem prospect_serve {c : Cursor} (h : P c.prospect) (request : Request) :
    P (c.serve request).2.prospect := by
  rcases request.kinds with rfl | rfl | rfl | hquiet
  · change P c.next.2.prospect
    rw [prospect_next]
    exact hnext _ h
  · change P c.isLast.2.prospect
    rw [prospect_isLast]
    exact hisLast _ h
  · exact hclosed _
  · rw [prospect_congr (state_serve c hquiet)]
    exact h

theorem prospect_run {c : Cursor} (h : P c.prospect) (requests : List Request) :
    P (c.run requests).prospect := by
  induction requests generalizing c with
  | nil => exact h
  | cons request requests ih => exact ih (prospect_serve hnext hisLast hclosed h request)

end

/-! ## Cursors that cannot be told apart -/

/-- Two cursors with the same prospect, however far each has read. -/
structure Alike (c d : Cursor) : Prop where
  prospect : c.prospect = d.prospect
  columns : c.columns = d.columns
  wasNull : c.wasNull = d.wasNull
  options : c.options = d.options

theorem Alike.refl (c : Cursor) : Alike c c := ⟨rfl, rfl, rfl, rfl⟩

theorem Alike.trans {c d e : Cursor} (h : Alike c d) (h' : Alike d e) : Alike c e :=
  ⟨h.prospect.trans h'.prospect, h.columns.trans h'.columns, h.wasNull.trans h'.wasNull,
    h.options.trans h'.options⟩

theorem position_eq (c : Cursor) : c.position =
    match c.prospect with
    | .beforeFirst _ => .beforeFirst
    | .onRow number _ _ => .onRow number
    | .afterLast => .afterLast
    | .closed position => position := by
  unfold position prospect
  cases c.state <;> rfl

theorem isClosed_eq (c : Cursor) : c.isClosed =
    match c.prospect with
    | .closed _ => true
    | _ => false := by
  unfold isClosed prospect
  cases c.state <;> rfl

theorem current?_eq (c : Cursor) : c.current? =
    match c.prospect with
    | .onRow _ row _ => some row
    | _ => none := by
  unfold current? prospect
  cases c.state <;> rfl

theorem withState_advance (c : Cursor) (number : Nat) (rest : ConcatSource)
    (stay : ConcatSource → CursorState) :
    (c.advance number rest stay).2 = c.withState (c.advance number rest stay).2.state := by
  unfold advance
  split <;> rfl

theorem withState_next (c : Cursor) : c.next.2 = c.withState c.next.2.state := by
  -- A move changes what is held of the rows and nothing else.
  unfold next
  split
  · rfl
  · rfl
  · exact withState_advance c _ _ _
  · rfl
  · exact withState_advance c _ _ _

theorem withState_isLast (c : Cursor) : c.isLast.2 = c.withState c.isLast.2.state := by
  unfold isLast
  split
  · rfl
  · split <;> rfl
  · rfl

section

variable {c d : Cursor} (h : Alike c d)
include h

theorem Alike.position : c.position = d.position := by
  rw [position_eq, position_eq, h.prospect]

theorem Alike.isClosed : c.isClosed = d.isClosed := by
  rw [isClosed_eq, isClosed_eq, h.prospect]

theorem Alike.unmoved : Unmoved c d :=
  ⟨h.position, h.isClosed, by rw [current?_eq, current?_eq, h.prospect], h.columns, h.wasNull,
    h.options⟩

theorem Alike.moved {moved moved' : Cursor} (hstate : moved = c.withState moved.state)
    (hstate' : moved' = d.withState moved'.state) (hprospect : moved.prospect = moved'.prospect) :
    Alike moved moved' := by
  rw [hstate] at hprospect ⊢
  rw [hstate'] at hprospect ⊢
  exact ⟨hprospect, h.columns, h.wasNull, h.options⟩

theorem Alike.next : c.next.1 = d.next.1 ∧ Alike c.next.2 d.next.2 := by
  constructor
  · rw [next_eq, next_eq, h.prospect]
  · apply h.moved (withState_next c) (withState_next d)
    rw [prospect_next, prospect_next, h.prospect]

theorem Alike.isLast : c.isLast.1 = d.isLast.1 ∧ Alike c.isLast.2 d.isLast.2 := by
  constructor
  · rw [isLast_eq, isLast_eq, h.prospect]
  · apply h.moved (withState_isLast c) (withState_isLast d)
    rw [prospect_isLast, prospect_isLast, h.prospect]

theorem Alike.close : Alike c.close d.close := by
  refine ⟨?_, h.columns, h.wasNull, h.options⟩
  change Prospect.closed c.position = .closed d.position
  rw [h.position]

theorem Alike.serve (request : Request) :
    (c.serve request).1 = (d.serve request).1 ∧ Alike (c.serve request).2 (d.serve request).2 := by
  -- Whatever is asked of them, cursors with one prospect reply the same and have one again.
  rcases request.kinds with rfl | rfl | rfl | hquiet
  · exact h.next
  · exact h.isLast
  · exact ⟨rfl, h.close⟩
  · obtain ⟨hreply, hleft⟩ := h.unmoved.serve hquiet
    refine ⟨hreply, ?_, hleft.columns, hleft.wasNull, hleft.options⟩
    rw [prospect_congr (state_serve c hquiet), prospect_congr (state_serve d hquiet), h.prospect]

end

/-! ## Sources without errors -/

/-- No error lies ahead. -/
def Smooth (c : Cursor) : Prop :=
  ∀ item ∈ c.prospect.todo, ∃ row, item = .ok row

theorem Smooth.of_alike {c d : Cursor} (hs : Smooth d) (h : Alike c d) : Smooth c := by
  unfold Smooth
  rw [h.prospect]
  exact hs

theorem todo_take (number : Nat) {stay : List (Result Row) → Prospect}
    (hstay : ∀ rest, (stay rest).todo = rest) (todo : List (Result Row)) :
    (Prospect.take number stay todo).2.todo ⊆ todo := by
  cases todo with
  | nil => exact List.nil_subset _
  | cons item rest =>
    cases item with
    | ok row => exact List.subset_cons_self _ _
    | error error =>
      simp only [Prospect.take, hstay]
      exact List.subset_cons_self _ _

theorem todo_next (p : Prospect) : p.next.2.todo ⊆ p.todo := by
  cases p with
  | beforeFirst todo => exact todo_take 1 (fun _ => rfl) todo
  | onRow number row todo => exact todo_take (number + 1) (fun _ => rfl) todo
  | afterLast => exact List.Subset.refl _
  | closed position => exact List.Subset.refl _

theorem todo_isLast (p : Prospect) : p.isLast.2.todo ⊆ p.todo := by
  unfold Prospect.isLast
  split
  · exact List.subset_cons_self _ _
  · exact List.Subset.refl _
  · exact List.Subset.refl _
  · exact List.Subset.refl _

theorem todo_serve (c : Cursor) (request : Request) :
    (c.serve request).2.prospect.todo ⊆ c.prospect.todo := by
  apply prospect_serve (P := fun p => p.todo ⊆ c.prospect.todo)
  · exact fun p hp => List.Subset.trans (todo_next p) hp
  · exact fun p hp => List.Subset.trans (todo_isLast p) hp
  · exact fun position => List.nil_subset _
  · exact List.Subset.refl _

theorem Smooth.serve {c : Cursor} (hs : Smooth c) (request : Request) :
    Smooth (c.serve request).2 :=
  fun item hitem => hs item (todo_serve c request hitem)

theorem Smooth.run {c : Cursor} (hs : Smooth c) (requests : List Request) :
    Smooth (c.run requests) := by
  induction requests generalizing c with
  | nil => exact hs
  | cons request requests ih => exact ih (hs.serve request)

theorem Smooth.alike_isLast {c : Cursor} (hs : Smooth c) : Alike c.isLast.2 c := by
  have hstill : c.prospect.isLast.2 = c.prospect := by
    unfold Smooth at hs
    unfold Prospect.isLast
    split
    · rename_i heq
      rw [heq] at hs
      obtain ⟨row, hrow⟩ := hs _ List.mem_cons_self
      cases hrow
    · rename_i heq
      exact heq.symm
    · rename_i heq
      exact heq.symm
    · rfl
  apply (Alike.refl c).moved (withState_isLast c) rfl
  rw [prospect_isLast, hstill]

theorem replies_filter {c d : Cursor} (h : Alike c d) (hs : Smooth d) (requests : List Request) :
    (c.replies requests).filter (fun reply => !reply.1.looksAhead) =
      d.replies (requests.filter fun request => !request.looksAhead) := by
  induction requests generalizing c d with
  | nil => rfl
  | cons request requests ih =>
    cases hlooks : request.looksAhead with
    | true =>
      -- The look ahead leaves a cursor that cannot be told from the one that it was asked of.
      have hleft : Alike (c.serve request).2 d := by
        unfold Request.looksAhead at hlooks
        split at hlooks
        · exact (hs.of_alike h).alike_isLast.trans h
        · cases hlooks
      rw [replies, List.filter_cons_of_neg (by simp [hlooks]),
        List.filter_cons_of_neg (by simp [hlooks]), ih hleft hs]
    | false =>
      obtain ⟨hreply, halike⟩ := h.serve request
      rw [replies, List.filter_cons_of_pos (by simp [hlooks]),
        List.filter_cons_of_pos (by simp [hlooks]), replies, hreply, ih halike (hs.serve request)]

/-! ## Looking ahead on a row -/

section

variable {c : Cursor} (hs : Smooth c) {number : Nat} {row : Row} {todo : List (Result Row)}
  (hc : c.prospect = .onRow number row todo)
include hs hc

theorem reply_next : c.next.1 = .ok (!todo.isEmpty) := by
  unfold Smooth at hs
  rw [next_eq, hc]
  rw [hc] at hs
  cases todo with
  | nil => rfl
  | cons item rest =>
    obtain ⟨following, rfl⟩ := hs item List.mem_cons_self
    rfl

theorem reply_isLast : c.isLast.1 = .ok todo.isEmpty := by
  unfold Smooth at hs
  rw [isLast_eq, hc]
  rw [hc] at hs
  cases todo with
  | nil => rfl
  | cons item rest =>
    obtain ⟨following, rfl⟩ := hs item List.mem_cons_self
    rfl

theorem replies_isLast (times : Nat) :
    c.replies (List.replicate times (.call .isLast) ++ [.call .next]) =
      List.replicate times ⟨.call .isLast, .ok todo.isEmpty⟩ ++
        [⟨.call .next, .ok (!todo.isEmpty)⟩] := by
  induction times generalizing c with
  | zero =>
    have hreply := reply_next hs hc
    change [(⟨.call .next, c.next.1⟩ : Σ request : Request, request.Reply)] = _
    rw [hreply]
    rfl
  | succ times ih =>
    have hreply := reply_isLast hs hc
    have halike := hs.alike_isLast
    have hleft := ih (hs.of_alike halike) (halike.prospect.trans hc)
    rw [List.replicate_succ, List.cons_append, replies]
    change (⟨.call .isLast, c.isLast.1⟩ : Σ request : Request, request.Reply) :: c.isLast.2.replies _ = _
    rw [hreply, hleft]
    rfl

end

theorem exists_prospect {c : Cursor} (hopen : c.isClosed = false) {number : Nat}
    (hposition : c.position = .onRow number) : ∃ row todo, c.prospect = .onRow number row todo := by
  rw [isClosed_eq] at hopen
  rw [position_eq] at hposition
  cases hprospect : c.prospect with
  | onRow n row todo =>
    rw [hprospect] at hposition
    cases hposition
    exact ⟨row, todo, rfl⟩
  | beforeFirst todo =>
    rw [hprospect] at hposition
    cases hposition
  | afterLast =>
    rw [hprospect] at hposition
    cases hposition
  | closed position =>
    rw [hprospect] at hopen
    cases hopen

/-- As long as no source fails, looking ahead goes unseen: with or without it, every other request
is replied to in the same way. And the next move confirms what it tells, however often it is asked. -/
theorem isLast_unseen (output : QueryOutput) (options : CursorOptions)
    (hitems : ∀ item ∈ output.items, ∃ row, item = .ok row) :
    (∀ requests requests' : List Request,
      (requests.filter fun request => !request.looksAhead) =
          (requests'.filter fun request => !request.looksAhead) →
        ((ofOutput output options).replies requests).filter (fun reply => !reply.1.looksAhead) =
          ((ofOutput output options).replies requests').filter fun reply => !reply.1.looksAhead) ∧
      ∀ (requests : List Request) (number : Nat),
        ((ofOutput output options).run requests).isClosed = false →
          ((ofOutput output options).run requests).position = .onRow number →
            ∃ last : Bool, ∀ times,
              ((ofOutput output options).run requests).replies
                  (List.replicate times (.call .isLast) ++ [.call .next]) =
                List.replicate times ⟨.call .isLast, .ok last⟩ ++ [⟨.call .next, .ok (!last)⟩] := by
  have hs : Smooth (ofOutput output options) := by
    rw [output.items_eq] at hitems
    exact hitems
  constructor
  · intro requests requests' hsame
    rw [replies_filter (.refl _) hs, replies_filter (.refl _) hs, hsame]
  · intro requests number hopen hposition
    obtain ⟨row, todo, hprospect⟩ := exists_prospect hopen hposition
    exact ⟨todo.isEmpty, replies_isLast (hs.run requests) hprospect⟩

/-- Two rows, with an empty source after each of them. -/
theorem isLast_unseen_across_sources :
    let column : Column := ⟨"ks", "t", "n", .scalar .int⟩
    let page (rows : List (List (Option Bytes))) : RowSource := .ofPage [column] rows
    let output : QueryOutput :=
      .multi [page [[some [0, 0, 0, 1]]], page [], page [[none]], page []]
    let c := ofOutput output .default
    let next : Request := .call .next
    let isLast : Request := .call .isLast
    let read : Request := .call (.get (.name "n") Cell.intLenient)
    (c.replies [next, isLast, read, isLast, next, read, isLast, .query .wasNull]).filter
          (fun reply => !reply.1.looksAhead) =
        (c.replies [next, read, next, isLast, isLast, read, .query .wasNull]).filter
          (fun reply => !reply.1.looksAhead) ∧
      ∃ last : Bool, ∀ times,
        (c.run [next, isLast]).replies (List.replicate times isLast ++ [next]) =
          List.replicate times ⟨isLast, .ok last⟩ ++ [⟨next, .ok (!last)⟩] := by
  intro column page output c next isLast read
  have hitems : ∀ item ∈ output.items, ∃ row, item = .ok row := by
    have hrows : output.items = [.ok ⟨[column], [some [0, 0, 0, 1]], rfl⟩, .ok ⟨[column], [none], rfl⟩] :=
      rfl
    rw [hrows]
    simp
  obtain ⟨hsame, hlast⟩ := isLast_unseen output .default hitems
  exact ⟨hsame _ _ rfl, hlast _ 1 rfl rfl⟩

end Cursor

end WideRow
