import WideRow.Row.Basic

/-!
# Row sources

A source answers every pull with the values of a row, with a failure, or with the news that it has
finished. What it would answer after that is its own affair: whoever pulls has to stop there.
Several sources are read as one sequence, front to back, each until it has finished.
-/

namespace WideRow

/-- What a source answers to one pull. -/
inductive SourceAnswer where
  | values (values : List (Option Bytes))
  | failure (error : ClientError)
  | finished

/-- A sequence of rows with the same columns. -/
structure RowSource where
  columns : Columns
  /-- The answers still to come. Once they have run out, the source answers that it has finished. -/
  answers : List SourceAnswer

namespace RowSource

/-- A page that was received as a whole. -/
def ofPage (columns : Columns) (rows : List (List (Option Bytes))) : RowSource :=
  ⟨columns, rows.map .values⟩

def remaining (s : RowSource) : Nat :=
  s.answers.length

/-- Takes the next row. A row of another width than the columns is an error, and is taken. -/
def pull (s : RowSource) : Result (Option Row) × RowSource :=
  match s.answers with
  | [] => (.ok none, s)
  | .finished :: rest => (.ok none, ⟨s.columns, rest⟩)
  | .failure error :: rest => (.error error, ⟨s.columns, rest⟩)
  | .values values :: rest => (some <$> Row.ofValues s.columns values, ⟨s.columns, rest⟩)

def describe (s : RowSource) : String :=
  s!"RowSource \x7b columns: {s.columns.length} \x7d"

end RowSource

/-! ## Query output -/

/-- What a session returns for a query. -/
inductive QueryOutput where
  | single (source : RowSource)
  /-- One source for each statement of a batch. -/
  | multi (sources : List RowSource)

namespace QueryOutput

def sources : QueryOutput → List RowSource
  | single source => [source]
  | multi sources => sources

def describe : QueryOutput → String
  | single source => "Single(" ++ source.describe ++ ")"
  | multi sources => "Multi([" ++ ", ".intercalate (sources.map RowSource.describe) ++ "])"

end QueryOutput

/-! ## Concatenation -/

/-- Several sources read as one. The columns are those of the first. -/
structure ConcatSource where
  columns : Columns
  /-- The sources that have not finished. -/
  pending : List RowSource

namespace ConcatSource

def ofSources (sources : List RowSource) : ConcatSource where
  columns := (sources.head?.map (·.columns)).getD []
  pending := sources

def ofOutput (output : QueryOutput) : ConcatSource :=
  ofSources output.sources

/-- Takes the next row of the first source that has one, and drops the finished ones before it. -/
def pullPending : List RowSource → Result (Option Row) × List RowSource
  | [] => (.ok none, [])
  | source :: rest =>
    match source.pull with
    | (.ok none, _) => pullPending rest
    | (answer, source) => (answer, source :: rest)

def pull (s : ConcatSource) : Result (Option Row) × ConcatSource :=
  let (answer, pending) := pullPending s.pending
  (answer, ⟨s.columns, pending⟩)

def describe (s : ConcatSource) : String :=
  s!"ConcatSource \x7b columns: {s.columns.length}, pending_sources: {s.pending.length} \x7d"

end ConcatSource

end WideRow
