import Mathlib.Data.List.Basic
import WideRow.Proofs.FailedCalls
import WideRow.Proofs.Result

/-!
# References to columns

A reference is resolved among the columns of the row that a cursor stands on, which need not be
those that the cursor was made with. What it finds is a column of that row with the value in the
same place, and a name finds what its position finds.
-/

namespace WideRow

open Result

/-! ## Names -/

/-- A name between double quotes. -/
def inQuotes (name : String) : String :=
  "\"" ++ name ++ "\""

theorem toList_inQuotes (name : String) :
    (inQuotes name).toList = '"' :: (name.toList ++ ['"']) := by
  simp [inQuotes]

theorem inQuotes_injective : Function.Injective inQuotes := by
  intro a b h
  have hlists := congrArg String.toList h
  rw [toList_inQuotes, toList_inQuotes, List.cons.injEq, List.append_cancel_right_eq] at hlists
  exact String.toList_injective hlists.2

namespace Column

/-- In double quotes a name means a column of exactly that name, whatever characters it has. Any
other text means a column of that name in any case. -/
inductive Means (c : Column) : String → Prop
  | exactly : Means c (inQuotes c.name)
  | anyCase {name : String} (hplain : ∀ inner, name ≠ inQuotes inner)
      (hsame : Text.sameIgnoringCase c.name name = true) : Means c name

theorem unquote?_eq_some_iff {cs inner : List Char} :
    unquote? cs = some inner ↔ cs = '"' :: (inner ++ ['"']) := by
  unfold unquote?
  split
  case h_1 rest =>
    rw [List.cons.injEq, eq_self, true_and]
    constructor
    · intro h
      split at h
      · rename_i hlast
        cases h
        rw [List.dropLast_append_getLast? _ hlast]
      · cases h
    · rintro rfl
      simp
  case h_2 hno =>
    constructor
    · intro h
      cases h
    · rintro rfl
      exact absurd rfl (hno _)

theorem isNamed_inQuotes (c : Column) (name : String) :
    c.isNamed (inQuotes name) = (c.name == name) := by
  have hunquote := unquote?_eq_some_iff.mpr (toList_inQuotes name)
  unfold isNamed
  rw [hunquote, Bool.eq_iff_iff, beq_iff_eq, beq_iff_eq, String.toList_inj]

theorem isNamed_plain (c : Column) {name : String} (hplain : ∀ inner, name ≠ inQuotes inner) :
    c.isNamed name = Text.sameIgnoringCase c.name name := by
  unfold isNamed
  split
  · rename_i inner hunquote
    have hname : name = inQuotes (String.ofList inner) := by
      rw [← String.toList_inj, unquote?_eq_some_iff.mp hunquote, toList_inQuotes,
        String.toList_ofList]
    exact absurd hname (hplain _)
  · rfl

theorem means_inQuotes_iff {c : Column} {name : String} :
    c.Means (inQuotes name) ↔ c.name = name := by
  constructor
  · intro h
    generalize hquoted : inQuotes name = quoted at h
    cases h with
    | exactly => exact (inQuotes_injective hquoted).symm
    | anyCase hplain => exact absurd hquoted.symm (hplain name)
  · rintro rfl
    exact .exactly

theorem isNamed_iff {c : Column} {name : String} : c.isNamed name = true ↔ c.Means name := by
  by_cases hquoted : ∃ inner, name = inQuotes inner
  · obtain ⟨inner, rfl⟩ := hquoted
    rw [isNamed_inQuotes, beq_iff_eq, means_inQuotes_iff]
  · have hplain : ∀ inner, name ≠ inQuotes inner := fun inner h => hquoted ⟨inner, h⟩
    rw [isNamed_plain c hplain]
    constructor
    · exact .anyCase hplain
    · intro h
      cases h with
      | exactly => exact absurd rfl (hplain _)
      | anyCase _ hsame => exact hsame

end Column

/-! ## Resolving -/

/-- The column at an index is the first with a property. -/
structure Columns.First (cs : Columns) (p : Column → Prop) (i : Nat) : Prop where
  found : ∃ column, cs[i]? = some column ∧ p column
  first : ∀ j < i, ∀ column, cs[j]? = some column → ¬ p column

/-- What a reference stands for: a position for the column there, counted from 1, and a name for
the first column that it means. -/
inductive Columns.Locates (cs : Columns) : ColumnRef → Nat → Prop
  | position {i : Nat} (hi : i < cs.length) : Locates cs (.position (i + 1)) i
  | name {name : String} {i : Nat} (hfirst : cs.First (Column.Means · name) i) :
      Locates cs (.name name) i

/-- The error for a reference to no column. -/
def ColumnRef.unknown (count : Nat) : ColumnRef → ClientError
  | .position number => .columnIndexOutOfRange number count
  | .name text => .noSuchColumn text

namespace Columns

variable {cs : Columns}

theorem locates_position_iff {position : Int} {i : Nat} :
    cs.Locates (.position position) i ↔ i < cs.length ∧ position = i + 1 := by
  constructor
  · intro h
    cases h with
    | position hi => exact ⟨hi, rfl⟩
  · rintro ⟨hi, rfl⟩
    exact .position hi

theorem locates_name_iff {name : String} {i : Nat} :
    cs.Locates (.name name) i ↔ cs.First (Column.Means · name) i := by
  constructor
  · intro h
    cases h with
    | name hfirst => exact hfirst
  · exact .name

theorem atPosition?_eq_some_iff {position : Int} {i : Fin cs.length} :
    cs.atPosition? position = some i ↔ cs.Locates (.position position) i := by
  rw [locates_position_iff]
  have hi := i.isLt
  unfold atPosition?
  split
  · rw [Option.some.injEq, Fin.ext_iff]
    simp only
    omega
  · simp only [reduceCtorEq, false_iff]
    omega

theorem indexOf?_eq_some_iff {name : String} {i : Fin cs.length} :
    cs.indexOf? name = some i ↔ cs.Locates (.name name) i := by
  rw [locates_name_iff, indexOf?, List.findFinIdx?_eq_some_iff, Column.isNamed_iff]
  constructor
  · rintro ⟨hmeans, hfirst⟩
    refine ⟨⟨cs[i], List.getElem?_eq_getElem i.isLt, hmeans⟩, ?_⟩
    intro j hj column hcolumn
    obtain ⟨hlt, rfl⟩ := List.getElem?_eq_some_iff.mp hcolumn
    rw [← Column.isNamed_iff]
    exact hfirst ⟨j, hlt⟩ hj
  · rintro ⟨⟨column, hcolumn, hmeans⟩, hfirst⟩
    obtain ⟨_, rfl⟩ := List.getElem?_eq_some_iff.mp hcolumn
    refine ⟨hmeans, ?_⟩
    intro j hj
    rw [Column.isNamed_iff]
    exact hfirst j hj _ (List.getElem?_eq_getElem j.isLt)

theorem resolve_eq_ok_iff {ref : ColumnRef} {i : Fin cs.length} :
    cs.resolve ref = .ok i ↔ cs.Locates ref i := by
  cases ref with
  | position position =>
    rw [← atPosition?_eq_some_iff]
    cases hat : cs.atPosition? position <;> simp [resolve, hat]
  | name name =>
    rw [← indexOf?_eq_some_iff]
    cases hat : cs.indexOf? name <;> simp [resolve, hat]

theorem Locates.lt_length {ref : ColumnRef} {i : Nat} (h : cs.Locates ref i) : i < cs.length := by
  cases h with
  | position hi => exact hi
  | name hfirst =>
    obtain ⟨column, hcolumn, -⟩ := hfirst.found
    exact (List.getElem?_eq_some_iff.mp hcolumn).1

theorem Locates.resolve_eq {ref : ColumnRef} {i : Nat} (h : cs.Locates ref i) :
    cs.resolve ref = .ok ⟨i, h.lt_length⟩ :=
  resolve_eq_ok_iff.mpr h

theorem exists_locates_iff {ref : ColumnRef} :
    (∃ i, cs.Locates ref i) ↔ ∃ i, cs.resolve ref = .ok i := by
  constructor
  · rintro ⟨i, h⟩
    exact ⟨_, h.resolve_eq⟩
  · rintro ⟨i, h⟩
    exact ⟨i, resolve_eq_ok_iff.mp h⟩

theorem error_of_resolve {ref : ColumnRef} {e : ClientError} (h : cs.resolve ref = .error e) :
    e = ref.unknown cs.length := by
  unfold resolve at h
  split at h <;> split at h <;> cases h <;> rfl

theorem resolve_eq_error_iff {ref : ColumnRef} {e : ClientError} :
    cs.resolve ref = .error e ↔ (¬ ∃ i, cs.Locates ref i) ∧ e = ref.unknown cs.length := by
  rw [exists_locates_iff]
  cases hresolve : cs.resolve ref with
  | ok i => simp
  | error cause =>
    rw [error_of_resolve hresolve]
    simp [eq_comm]

theorem exists_locates_position_iff {position : Int} :
    (∃ i, cs.Locates (.position position) i) ↔ 1 ≤ position ∧ position ≤ cs.length := by
  constructor
  · rintro ⟨i, h⟩
    obtain ⟨hi, rfl⟩ := locates_position_iff.mp h
    omega
  · rintro ⟨hlow, hhigh⟩
    refine ⟨position.toNat - 1, locates_position_iff.mpr ?_⟩
    omega

theorem exists_locates_name_iff {name : String} :
    (∃ i, cs.Locates (.name name) i) ↔ ∃ column ∈ cs, column.Means name := by
  constructor
  · rintro ⟨i, h⟩
    obtain ⟨column, hcolumn, hmeans⟩ := (locates_name_iff.mp h).found
    exact ⟨column, List.mem_of_getElem? hcolumn, hmeans⟩
  · rintro ⟨column, hmem, hmeans⟩
    cases hat : cs.indexOf? name with
    | some i => exact ⟨i, indexOf?_eq_some_iff.mp hat⟩
    | none =>
      have hother := List.findFinIdx?_eq_none_iff.mp hat column hmem
      exact absurd (Column.isNamed_iff.mpr hmeans) hother

theorem locates_inQuotes_iff {name : String} {i : Nat} :
    cs.Locates (.name (inQuotes name)) i ↔ cs.First (·.name = name) i := by
  simp only [locates_name_iff, Column.means_inQuotes_iff]

end Columns

/-! ## Rows -/

/-- The cell at an index of a row. Both the column and the value are in the row. -/
def Row.Holds (r : Row) (i : Nat) (cell : Cell) : Prop :=
  ∃ column raw, r.columns[i]? = some column ∧ r.values[i]? = some raw ∧
    cell = ⟨column.name, column.type, raw⟩

/-- A source has answered with the values of the row, and the columns are its own. -/
structure Row.IsFrom (r : Row) (source : RowSource) : Prop where
  columns : r.columns = source.columns
  values : .values r.values ∈ source.answers

theorem Row.holds_iff {r : Row} {i : Fin r.columns.length} {cell : Cell} :
    r.Holds i cell ↔ r.cell i = cell := by
  have hi : i.val < r.values.length := by
    rw [r.aligned]
    exact i.isLt
  unfold Holds
  rw [List.getElem?_eq_getElem i.isLt, List.getElem?_eq_getElem hi]
  constructor
  · rintro ⟨column, raw, hcolumn, hraw, rfl⟩
    cases hcolumn
    cases hraw
    rfl
  · rintro rfl
    exact ⟨_, _, rfl, rfl, rfl⟩

theorem SourceAnswer.row_of_mem_items {columns : Columns} {answers : List SourceAnswer} {row : Row}
    (h : .ok row ∈ items columns answers) :
    row.columns = columns ∧ .values row.values ∈ answers := by
  induction answers with
  | nil => cases h
  | cons answer rest ih =>
    cases answer with
    | finished => cases h
    | failure error =>
      rcases List.mem_cons.mp h with hfirst | hrest
      · cases hfirst
      · exact ⟨(ih hrest).1, List.mem_cons_of_mem _ (ih hrest).2⟩
    | values given =>
      rcases List.mem_cons.mp h with hfirst | hrest
      · split at hfirst
        · cases hfirst
          exact ⟨rfl, List.mem_cons_self⟩
        · cases hfirst
      · exact ⟨(ih hrest).1, List.mem_cons_of_mem _ (ih hrest).2⟩

theorem QueryOutput.source_of_mem_items {output : QueryOutput} {row : Row}
    (h : .ok row ∈ output.items) : ∃ source ∈ output.sources, row.IsFrom source := by
  rw [output.items_eq] at h
  obtain ⟨source, hsource, hrow⟩ := List.mem_flatMap.mp h
  obtain ⟨hcolumns, hvalues⟩ := SourceAnswer.row_of_mem_items hrow
  exact ⟨source, hsource, hcolumns, hvalues⟩

/-! ## The current row -/

/-- All rows that a cursor holds, the current one included, are among the items. -/
def Prospect.Draws (items : List (Result Row)) (p : Prospect) : Prop :=
  p.todo ⊆ items ∧ ∀ number row todo, p = .onRow number row todo → .ok row ∈ items

namespace Cursor

section

variable {items : List (Result Row)}

theorem draws_take {number : Nat} {stay : List (Result Row) → Prospect} {todo : List (Result Row)}
    (hstay : ∀ rest, rest ⊆ items → (stay rest).Draws items) (h : todo ⊆ items) :
    (Prospect.take number stay todo).2.Draws items := by
  match todo with
  | [] => exact ⟨List.nil_subset _, nofun⟩
  | .ok row :: rest =>
    obtain ⟨hrow, hrest⟩ := List.cons_subset.mp h
    refine ⟨hrest, ?_⟩
    rintro _ _ _ ⟨⟩
    exact hrow
  | .error error :: rest => exact hstay rest (List.cons_subset.mp h).2

theorem draws_next {p : Prospect} (h : p.Draws items) : p.next.2.Draws items := by
  obtain ⟨htodo, hcurrent⟩ := h
  cases p with
  | beforeFirst todo => exact draws_take (fun rest hrest => ⟨hrest, nofun⟩) htodo
  | onRow number row todo =>
    refine draws_take (fun rest hrest => ⟨hrest, ?_⟩) htodo
    rintro _ _ _ ⟨⟩
    exact hcurrent number row todo rfl
  | afterLast => exact ⟨htodo, hcurrent⟩
  | closed position => exact ⟨htodo, hcurrent⟩

theorem draws_isLast {p : Prospect} (h : p.Draws items) : p.isLast.2.Draws items := by
  obtain ⟨htodo, hcurrent⟩ := h
  unfold Prospect.isLast
  split
  · refine ⟨(List.cons_subset.mp htodo).2, ?_⟩
    rintro _ _ _ ⟨⟩
    exact hcurrent _ _ _ rfl
  · exact ⟨htodo, hcurrent⟩
  · exact ⟨htodo, hcurrent⟩
  · exact ⟨htodo, hcurrent⟩

theorem draws_run {c : Cursor} (h : c.prospect.Draws items) (requests : List Request) :
    (c.run requests).prospect.Draws items := by
  apply prospect_run (fun _ => draws_next) (fun _ => draws_isLast) _ h
  intro position
  exact ⟨List.nil_subset _, nofun⟩

end

theorem source_of_current {output : QueryOutput} {options : CursorOptions}
    {requests : List Request} {row : Row}
    (h : ((ofOutput output options).run requests).current? = some row) :
    ∃ source ∈ output.sources, row.IsFrom source := by
  -- Whatever was asked of a cursor, its row has the columns of the source that gave it.
  have hstart : (ofOutput output options).prospect.Draws output.items := by
    rw [output.items_eq]
    exact ⟨List.Subset.refl _, nofun⟩
  obtain ⟨-, hcurrent⟩ := draws_run hstart requests
  rw [current?_eq] at h
  split at h
  · rename_i hprospect
    cases h
    exact QueryOutput.source_of_mem_items (hcurrent _ _ _ hprospect)
  · cases h

/-! ## Access on a row -/

section

variable {c : Cursor} {row : Row} (hrow : c.current? = some row)
include hrow

theorem cell_of_current (ref : ColumnRef) : c.cell ref = row.cell <$> row.columns.resolve ref := by
  rw [cell_eq_of_current?, isClosed_of_current hrow, hrow, if_neg Bool.false_ne_true,
    Option.elim_some]
  cases row.columns.resolve ref <;> rfl

theorem findColumn_of_current (name : String) :
    c.findColumn name = (fun i => i.val + 1) <$> row.columns.resolve (.name name) := by
  unfold findColumn ensureOpen
  rw [isClosed_of_current hrow, hrow, if_neg Bool.false_ne_true, ok_bind]
  simp only [Option.map_some, Option.getD_some]
  cases row.columns.resolve (.name name) <;> rfl

theorem cell_eq_ok_iff {ref : ColumnRef} {cell : Cell} :
    c.cell ref = .ok cell ↔ ∃ i, row.columns.Locates ref i ∧ row.Holds i cell := by
  rw [cell_of_current hrow, map_eq_ok]
  constructor
  · rintro ⟨i, hi, hcell⟩
    exact ⟨i, Columns.resolve_eq_ok_iff.mp hi, Row.holds_iff.mpr hcell⟩
  · rintro ⟨i, hi, hcell⟩
    exact ⟨_, hi.resolve_eq, Row.holds_iff.mp hcell⟩

theorem cell_eq_error_iff {ref : ColumnRef} {e : ClientError} :
    c.cell ref = .error e ↔
      (¬ ∃ i, row.columns.Locates ref i) ∧ e = ref.unknown row.columns.length := by
  rw [cell_of_current hrow, map_eq_error, Columns.resolve_eq_error_iff]

theorem findColumn_eq_ok_iff {name : String} {position : Nat} :
    c.findColumn name = .ok position ↔
      ∃ i, row.columns.Locates (.name name) i ∧ position = i + 1 := by
  rw [findColumn_of_current hrow, map_eq_ok]
  constructor
  · rintro ⟨i, hi, rfl⟩
    exact ⟨i, Columns.resolve_eq_ok_iff.mp hi, rfl⟩
  · rintro ⟨i, hi, rfl⟩
    exact ⟨_, hi.resolve_eq, rfl⟩

theorem cell_of_findColumn {name : String} {position : Nat}
    (h : c.findColumn name = .ok position) : c.cell (.name name) = c.cell (.position position) := by
  obtain ⟨i, hi, rfl⟩ := (findColumn_eq_ok_iff hrow).mp h
  have hposition : row.columns.Locates (.position (i + 1 : Nat)) i := .position hi.lt_length
  rw [cell_of_current hrow, cell_of_current hrow, hi.resolve_eq, hposition.resolve_eq]

end

/-- A cursor stands on a row that one of the sources has given, with a value for each column of that
source. A reference is resolved among the columns of the row: a position if it is one of them
counted from 1, and a name if a column is meant by it, which is then the first of those. The cell is
of the column and the value that the row has there; any other reference fails, and with no other
error than that of its kind. A name and the position that is found for it are read alike and leave
the same cursor. In double quotes any name at all, with quotes or without, stands for the first
column of exactly that name. -/
theorem columns_by_reference (output : QueryOutput) (options : CursorOptions)
    (requests : List Request) (row : Row)
    (hrow : ((ofOutput output options).run requests).current? = some row) :
    let c := (ofOutput output options).run requests
    ((∃ source ∈ output.sources, row.IsFrom source) ∧ row.values.length = row.columns.length) ∧
    ((∀ ref cell, c.cell ref = .ok cell ↔ ∃ i, row.columns.Locates ref i ∧ row.Holds i cell) ∧
      (∀ ref e, c.cell ref = .error e ↔
        (¬ ∃ i, row.columns.Locates ref i) ∧ e = ref.unknown row.columns.length) ∧
      (∀ position, (∃ i, row.columns.Locates (.position position) i) ↔
        1 ≤ position ∧ position ≤ row.columns.length) ∧
      ∀ name, (∃ i, row.columns.Locates (.name name) i) ↔
        ∃ column ∈ row.columns, column.Means name) ∧
    ((∀ name position, c.findColumn name = .ok position ↔
        ∃ i, row.columns.Locates (.name name) i ∧ position = i + 1) ∧
      ∀ name position, c.findColumn name = .ok position →
        ∀ {α : Type} (read : Cell → Result α),
          c.get (.name name) read = c.get (.position position) read) ∧
    ∀ name,
      (∀ cell, c.cell (.name (inQuotes name)) = .ok cell ↔
        ∃ i, row.columns.First (·.name = name) i ∧ row.Holds i cell) ∧
      (c.cell (.name (inQuotes name)) = .error (.noSuchColumn (inQuotes name)) ↔
        ∀ column ∈ row.columns, column.name ≠ name) := by
  intro c
  refine ⟨⟨source_of_current hrow, row.aligned⟩, ⟨?_, ?_, ?_, ?_⟩, ⟨?_, ?alike⟩, ?quoted⟩
  · exact fun ref cell => cell_eq_ok_iff hrow
  · exact fun ref e => cell_eq_error_iff hrow
  · exact fun position => Columns.exists_locates_position_iff
  · exact fun name => Columns.exists_locates_name_iff
  · exact fun name position => findColumn_eq_ok_iff hrow
  case alike =>
    intro name position h α read
    unfold get
    rw [cell_of_findColumn hrow h]
  case quoted =>
    intro name
    constructor
    · intro cell
      simp only [c, cell_eq_ok_iff hrow, Columns.locates_inQuotes_iff]
    · rw [cell_eq_error_iff hrow, Columns.exists_locates_name_iff]
      simp [ColumnRef.unknown, Column.means_inQuotes_iff]

/-- The columns of the second source differ from those of the first, and a raw row of the first has
the wrong width. Quotes belong to the name of one of the columns. -/
theorem columns_by_reference_two_sources :
    let text : Column := ⟨"ks", "t", "\"a\"", .scalar .text⟩
    let upper : Column := ⟨"ks", "t", "A", .scalar .int⟩
    let lower : Column := ⟨"ks", "t", "a", .scalar .int⟩
    let output : QueryOutput :=
      .multi [⟨[lower], [.values [], .values [some [0, 0, 0, 1]]]⟩,
        ⟨[text, upper, lower], [.values [some [0x78], none, some [0, 0, 0, 2]]]⟩]
    let next : Request := .call .next
    let c := (ofOutput output .default).run [next, next, next]
    c.cell (.position 3) = .ok ⟨"a", .scalar .int, some [0, 0, 0, 2]⟩ ∧
      c.cell (.position 4) = .error (.columnIndexOutOfRange 4 3) ∧
      c.findColumn "a" = .ok 2 ∧
      c.get (.name "a") Cell.intLenient = c.get (.position 2) Cell.intLenient ∧
      c.cell (.name (inQuotes "a")) = .ok ⟨"a", .scalar .int, some [0, 0, 0, 2]⟩ ∧
      c.cell (.name (inQuotes "\"a\"")) = .ok ⟨"\"a\"", .scalar .text, some [0x78]⟩ ∧
      c.cell (.name (inQuotes "b")) = .error (.noSuchColumn (inQuotes "b")) := by
  intro text upper lower output next c
  let row : Row := ⟨[text, upper, lower], [some [0x78], none, some [0, 0, 0, 2]], rfl⟩
  have hrow : c.current? = some row := rfl
  obtain ⟨-, ⟨hok, herror, hposition, -⟩, ⟨-, halike⟩, hquoted⟩ :=
    columns_by_reference output .default [next, next, next] row hrow
  have hfound : c.findColumn "a" = .ok 2 := by decide
  have hlower : row.columns.First (·.name = "a") 2 := by
    refine ⟨⟨lower, rfl, rfl⟩, ?_⟩
    intro j hj column hcolumn
    match j with
    | 0 =>
      cases hcolumn
      decide
    | 1 =>
      cases hcolumn
      decide
  have htext : row.columns.First (·.name = "\"a\"") 0 := by
    refine ⟨⟨text, rfl, rfl⟩, ?_⟩
    intro j hj
    omega
  refine ⟨?_, ?_, hfound, halike "a" 2 hfound Cell.intLenient, ?_, ?_, ?_⟩
  · exact (hok _ _).mpr ⟨2, .position (by decide), lower, _, rfl, rfl, rfl⟩
  · exact (herror _ _).mpr ⟨mt (hposition 4).mp (by decide), rfl⟩
  · exact ((hquoted "a").1 _).mpr ⟨2, hlower, lower, _, rfl, rfl, rfl⟩
  · exact ((hquoted "\"a\"").1 _).mpr ⟨0, htext, text, _, rfl, rfl, rfl⟩
  · exact (hquoted "b").2.mpr (by decide)

end Cursor

end WideRow
