import HealthSignal.Membership.Snapshot
import HealthSignal.Status
import HealthSignal.Duration

/-!
A node's view of its cluster: whether it has joined, and whether it has lost all its peers.
-/
namespace HealthSignal

structure ClusterView where
  node : String
  snapshot : Snapshot
  /-- The node was seen to leave and has not been seen to join again. -/
  removed : Bool
  deriving DecidableEq, Repr

namespace ClusterView

def new (node : String) (snapshot : Snapshot) : ClusterView := ⟨node, snapshot, false⟩

def apply (v : ClusterView) (e : MemberEvent) : ClusterView :=
  { v with
    removed := match e with
      | .up n => if n = v.node then false else v.removed
      | .removed n => if n = v.node then true else v.removed
      | _ => v.removed
    snapshot := v.snapshot.apply e }

def joined (v : ClusterView) : Bool := !v.removed && v.snapshot.members.contains v.node

/-- Starts over from a snapshot after events were missed; a member that has vanished was removed. -/
def resync (v : ClusterView) (s : Snapshot) : ClusterView :=
  { v with
    removed := !s.members.contains v.node && (v.removed || v.joined)
    snapshot := s }

def others (v : ClusterView) : NodeSet := v.snapshot.members.filter (· ≠ v.node)

def alone (v : ClusterView) : Bool :=
  !v.others.isEmpty && v.others.all v.snapshot.unreachable.contains

def liveness (v : ClusterView) : Status :=
  if v.joined then .good ("node " ++ v.node ++ " is a cluster member")
  else if v.removed then .bad ("node " ++ v.node ++ " was removed from the cluster")
  else .bad ("node " ++ v.node ++ " has not joined the cluster yet")

/-- The status of a node that is `isolated` if it has been alone for `debounce`. -/
def readiness (v : ClusterView) (debounce : Duration) (isolated : Bool) : Status :=
  if !v.joined then v.liveness
  else if isolated then
    .bad ("node " ++ v.node ++ " is isolated: all " ++ Text.decimal v.others.length ++
      " other members unreachable for " ++ debounce.text)
  else .good ("node " ++ v.node ++ " is a reachable cluster member")

end ClusterView
end HealthSignal
