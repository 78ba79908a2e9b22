import WideRow.Session.Backend
import WideRow.Text.Quoted

/-!
# Scripted clusters

A scripted cluster lives in memory. It answers the queries that its script knows, and fails where a
failure is planned: while a cluster is built or a session opened for a host, as often as the plan
says.
-/

namespace WideRow

/-- Where a planned failure strikes. -/
inductive FailurePoint where
  | build
  | connect
  deriving DecidableEq, Repr

/-- A failure for the clusters of a host. -/
structure PlannedFailure where
  host : String
  point : FailurePoint
  /-- How often it is still to strike. -/
  times : Nat
  error : ClientError

structure Script where
  /-- The outputs of queries, or the errors that they end in. -/
  outputs : List (String × Result QueryOutput)
  /-- Whether no session can be opened at all. -/
  failingConnect : Bool

namespace Script

/-- The failure planned for a point and a host, and the plan without that one strike. -/
def strike (point : FailurePoint) (host : Option String) :
    List PlannedFailure → Option ClientError × List PlannedFailure
  | [] => (none, [])
  | f :: fs =>
    if f.point = point ∧ some f.host = host ∧ f.times ≠ 0 then
      (some f.error, { f with times := f.times - 1 } :: fs)
    else
      let (error, fs) := strike point host fs
      (error, f :: fs)

/-- An absent text, or a present one between quotes. -/
def describeText? : Option String → String
  | some s => "Some(" ++ Text.quoted s ++ ")"
  | none => "None"

/-- What a query gives. Of several outputs for a query the last counts. -/
def answer (s : Script) (keyspace : Option String) (query : String) : Result QueryOutput :=
  match s.outputs.reverse.lookup query with
  | some output => output
  | none =>
    .error (.queryFailed
      ("unscripted query in keyspace " ++ describeText? keyspace ++ ": " ++ query))

/-- Offers scripted clusters. The state is the plan of failures. -/
def backend (s : Script) : Backend (List PlannedFailure) where
  build config plan :=
    match strike .build config.hosts.head? plan with
    | (some error, plan) => (.error error, plan)
    | (none, plan) => (.ok (), plan)
  connect config plan :=
    match strike .connect config.hosts.head? plan with
    | (some error, plan) => (.error error, plan)
    | (none, plan) =>
      if s.failingConnect then (.error (.connectionFailed "no hosts reachable"), plan)
      else (.ok (), plan)
  execute config query plan := (s.answer config.keyspace query, plan)

end Script

end WideRow
