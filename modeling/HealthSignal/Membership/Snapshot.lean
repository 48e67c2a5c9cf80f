import HealthSignal.Text.Utf8

/-!
Cluster membership at one instant, as events fold into it.
-/
namespace HealthSignal

abbrev NodeSet := List String

namespace NodeSet

def insert (node : String) : NodeSet → NodeSet
  | [] => [node]
  | n :: rest =>
    if n = node then n :: rest
    else if Text.precedes node n then node :: n :: rest
    else n :: insert node rest

def remove (node : String) (s : NodeSet) : NodeSet := s.filter (· ≠ node)

def ofList (nodes : List String) : NodeSet := nodes.foldl (fun s n => insert n s) []

end NodeSet

inductive MemberEvent
  | up (node : String)
  | removed (node : String)
  | unreachable (node : String)
  | reachable (node : String)
  deriving DecidableEq, Repr

structure Snapshot where
  members : NodeSet
  unreachable : NodeSet
  deriving DecidableEq, Repr

namespace Snapshot

def empty : Snapshot := ⟨[], []⟩

def apply (s : Snapshot) : MemberEvent → Snapshot
  | .up n => { s with members := s.members.insert n }
  | .removed n => ⟨s.members.remove n, s.unreachable.remove n⟩
  | .unreachable n => ⟨s.members.insert n, s.unreachable.insert n⟩
  | .reachable n => { s with unreachable := s.unreachable.remove n }

end Snapshot
end HealthSignal
