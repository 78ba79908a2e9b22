import WideRow.Config.Session
import WideRow.Row.Source

/-!
# Clusters

Sessions live on clusters. Who offers clusters builds one for a configuration, opens a session on it
and answers queries; whether that succeeds may depend on a state that changes with every request.
What happened to which cluster is kept as a list of events.
-/

namespace WideRow

/-- Who offers clusters, with a state of type `σ`. -/
structure Backend (σ : Type) where
  /-- Builds a cluster. No session is opened yet. -/
  build : SessionConfig → σ → Result Unit × σ
  connect : SessionConfig → σ → Result Unit × σ
  execute : SessionConfig → String → σ → Result QueryOutput × σ

/-- The number of a cluster, in the order in which clusters were built. -/
abbrev ClusterId := Nat

/-- What happened to a cluster. -/
inductive ClusterEvent where
  | built (cluster : ClusterId)
  | connected (cluster : ClusterId)
  | queried (cluster : ClusterId)
  | sessionClosed (cluster : ClusterId)
  | clusterClosed (cluster : ClusterId)
  deriving DecidableEq, Repr

structure ClusterCounts where
  builds : Nat
  connects : Nat
  queries : Nat
  sessionCloses : Nat
  clusterCloses : Nat
  deriving DecidableEq, Repr

namespace ClusterCounts

def zero : ClusterCounts :=
  ⟨0, 0, 0, 0, 0⟩

def add (c : ClusterCounts) : ClusterEvent → ClusterCounts
  | .built _ => { c with builds := c.builds + 1 }
  | .connected _ => { c with connects := c.connects + 1 }
  | .queried _ => { c with queries := c.queries + 1 }
  | .sessionClosed _ => { c with sessionCloses := c.sessionCloses + 1 }
  | .clusterClosed _ => { c with clusterCloses := c.clusterCloses + 1 }

def ofEvents (events : List ClusterEvent) : ClusterCounts :=
  events.foldl add zero

/-- The counts in the order in which the kinds of events follow each other. -/
def toList (c : ClusterCounts) : List Nat :=
  [c.builds, c.connects, c.queries, c.sessionCloses, c.clusterCloses]

end ClusterCounts

end WideRow
