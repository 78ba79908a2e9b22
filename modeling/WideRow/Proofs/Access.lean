import WideRow.Proofs.Prospect

/-!
# The last access to a column

A cursor tells whether the column that was read last was null. Whatever else is asked of it, and
whatever became of the value that was read, this is what stands in the last column that was found.
-/

namespace WideRow

namespace Cursor

/-! ## Accesses -/

/-- The raw value that a request finds. Only reading a column of the current row finds one, whether
or not it can be read as asked. -/
def accessed (c : Cursor) : Request → Option (Option Bytes)
  | .call (.get column _) => do
    let row ← c.current?
    let i ← (row.columns.resolve column).toOption
    row.values[i.val]?
  | _ => none

/-- The raw values that requests find one after the other. -/
def accesses (c : Cursor) : List Request → List (Option Bytes)
  | [] => []
  | request :: requests => (c.accessed request).toList ++ (c.serve request).2.accesses requests

theorem accessed_get {α : Type} (c : Cursor) (column : ColumnRef) (read : Cell → Result α) :
    c.accessed (.call (.get column read)) = (c.cell column).toOption.map Cell.raw := by
  unfold accessed current? cell
  cases c.state with
  | onRow number row ahead rest =>
    have hraw (i : Fin row.columns.length) : row.values[i.val]? = some (row.cell i).raw :=
      List.getElem?_eq_getElem _
    simp only [Option.bind_eq_bind, Option.bind_some, hraw]
    cases row.columns.resolve column <;> rfl
  | _ => rfl

theorem get_of_accessed_none {α : Type} {c : Cursor} {column : ColumnRef} {read : Cell → Result α}
    (h : c.accessed (.call (.get column read)) = none) :
    ∃ e, c.get column read = (.error e, c) := by
  rw [accessed_get] at h
  unfold get
  cases hcell : c.cell column with
  | error e => exact ⟨e, rfl⟩
  | ok cell =>
    rw [hcell] at h
    cases h

/-! ## One request -/

theorem withOptions_setFetchDirection (c : Cursor) (direction : FetchDirection) :
    ∃ options, (c.setFetchDirection direction).2 = c.withOptions options ∧
      options.catalog = c.options.catalog := by
  unfold setFetchDirection
  split
  · exact ⟨c.options, rfl, rfl⟩
  · split
    · exact ⟨c.options, rfl, rfl⟩
    · exact ⟨_, rfl, rfl⟩

theorem withOptions_setFetchSize (c : Cursor) (size : Int32) :
    ∃ options, (c.setFetchSize size).2 = c.withOptions options ∧
      options.catalog = c.options.catalog := by
  unfold setFetchSize
  split
  · exact ⟨c.options, rfl, rfl⟩
  · split
    · exact ⟨c.options, rfl, rfl⟩
    · exact ⟨_, rfl, rfl⟩

theorem serve_leaves (c : Cursor) (request : Request) :
    ∃ state options, (c.serve request).2 =
        ⟨state, c.columns, ((c.accessed request).map Option.isNone).getD c.wasNull, options⟩ ∧
      options.catalog = c.options.catalog := by
  cases request with
  | query query => exact ⟨c.state, c.options, rfl, rfl⟩
  | close => exact ⟨_, c.options, rfl, rfl⟩
  | call call =>
    cases call with
    | next => exact ⟨_, c.options, withState_next c, rfl⟩
    | isLast => exact ⟨_, c.options, withState_isLast c, rfl⟩
    | get column read =>
      refine ⟨c.state, c.options, ?_, rfl⟩
      rw [accessed_get]
      change (c.get column read).2 = _
      unfold get
      cases c.cell column <;> rfl
    | setFetchDirection direction => exact ⟨c.state, withOptions_setFetchDirection c direction⟩
    | setFetchSize size => exact ⟨c.state, withOptions_setFetchSize c size⟩
    | findColumn name => exact ⟨c.state, c.options, rfl, rfl⟩
    | metadata => exact ⟨c.state, c.options, rfl, rfl⟩
    | moveTo move => exact ⟨c.state, c.options, rfl, rfl⟩

theorem wasNull_serve (c : Cursor) (request : Request) :
    (c.serve request).2.wasNull = ((c.accessed request).map Option.isNone).getD c.wasNull := by
  obtain ⟨state, options, hleaves, -⟩ := serve_leaves c request
  rw [hleaves]

theorem metadata_serve (c : Cursor) (request : Request) :
    (c.serve request).2.metadata = c.metadata := by
  obtain ⟨state, options, hleaves, hcatalog⟩ := serve_leaves c request
  rw [hleaves]
  unfold metadata
  rw [hcatalog]

/-! ## Any run of requests -/

theorem wasNull_run (c : Cursor) (requests : List Request) :
    (c.run requests).wasNull = ((c.accesses requests).getLast?.map Option.isNone).getD c.wasNull := by
  induction requests generalizing c with
  | nil => rfl
  | cons request requests ih =>
    rw [run_cons, ih, wasNull_serve, accesses, List.getLast?_append]
    cases (accesses (c.serve request).2 requests).getLast? with
    | some raw => rfl
    | none => cases c.accessed request <;> rfl

theorem metadata_run (c : Cursor) (requests : List Request) :
    (c.run requests).metadata = c.metadata := by
  induction requests generalizing c with
  | nil => rfl
  | cons request requests ih => rw [run_cons, ih, metadata_serve]

/-- A cursor tells of a null exactly when some request has found a value and the last one that was
found is absent. A request that finds none leaves that as it is, and a read that finds none fails.
What is known of the columns never changes. -/
theorem wasNull_last_access (output : QueryOutput) (options : CursorOptions)
    (requests : List Request) :
    let start := ofOutput output options
    let c := start.run requests
    (c.wasNull = true ↔ (start.accesses requests).getLast? = some none) ∧
    (∀ request, c.accessed request = none → (c.serve request).2.wasNull = c.wasNull) ∧
    (∀ {α : Type} column (read : Cell → Result α),
      c.accessed (.call (.get column read)) = none → ∃ e, c.get column read = (.error e, c)) ∧
    c.metadata = start.metadata := by
  intro start c
  refine ⟨?latest, ?unchanged, ?failing, metadata_run start requests⟩
  case latest =>
    rw [wasNull_run]
    cases (start.accesses requests).getLast? with
    | none => simp [start, ofOutput]
    | some raw => simp
  case unchanged =>
    intro request h
    rw [wasNull_serve, h]
    rfl
  case failing =>
    intro α column read h
    exact get_of_accessed_none h

/-- A column that is not there leaves the null before it noted, one that is malformed does not. -/
example :
    let columns : Columns := [⟨"k", "t", "a", .scalar .int⟩, ⟨"k", "t", "b", .scalar .int⟩]
    let start := ofOutput (.multi [⟨columns, [.values [some [7], none]]⟩]) .default
    let read (position : Int) : Request := .call (.get (.position position) Cell.object)
    start.accesses [.call .next, read 2, read 3, read 1] = [none, some [7]] ∧
      (start.run [.call .next, read 2, read 3]).wasNull = true ∧
      (start.run [.call .next, read 2, read 3, read 1]).wasNull = false :=
  ⟨rfl, rfl, rfl⟩

end Cursor

end WideRow
