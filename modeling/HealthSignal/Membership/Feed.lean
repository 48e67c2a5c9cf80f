import HealthSignal.Membership.Snapshot

/-!
A feed of membership events. It keeps its own snapshot and the last `capacity` events; a receiver
that falls further behind is told how many it missed.
-/
namespace HealthSignal

structure Feed where
  capacity : Nat
  snapshot : Snapshot
  sent : Nat
  /-- The last events, newest first, at most `capacity` of them. -/
  recent : List MemberEvent
  closed : Bool
  deriving DecidableEq, Repr

structure Receiver where
  next : Nat
  deriving DecidableEq, Repr

inductive Receipt
  | event (e : MemberEvent)
  | lagged (missed : Nat)
  | empty
  | closed
  deriving DecidableEq, Repr

inductive FeedError
  | noRoom
  /-- The room is beyond half of what a machine word counts. -/
  | uncountable
  /-- The events would not fit into any memory. -/
  | tooLarge
  deriving DecidableEq, Repr

def FeedError.message : FeedError → String
  | .noRoom => "broadcast channel capacity cannot be zero"
  | .uncountable => "broadcast channel capacity exceeded `usize::MAX / 2`"
  | .tooLarge => "capacity overflow"

namespace Feed

def double (goal : Nat) : (steps : Nat) → Nat → Nat
  | 0, n => n
  | steps + 1, n => if goal ≤ n then n else double goal steps (2 * n)

def powerAbove (n : Nat) : Nat := double n n 1

def maxCapacity : Nat := 144115188075855872

/-- An open feed of an empty cluster. The room for events is rounded up to a power of two. -/
def new (capacity : Nat) : Except FeedError Feed :=
  if capacity = 0 then .error .noRoom
  else if UInt64.size / 2 ≤ capacity then .error .uncountable
  else if maxCapacity < powerAbove capacity then .error .tooLarge
  else .ok ⟨powerAbove capacity, .empty, 0, [], false⟩

def publish (f : Feed) (e : MemberEvent) : Feed :=
  { f with
    snapshot := f.snapshot.apply e
    sent := f.sent + 1
    recent := (e :: f.recent).take f.capacity }

def standalone (node : String) : Feed :=
  publish ⟨64, .empty, 0, [], false⟩ (.up node)

def subscribe (f : Feed) : Receiver := ⟨f.sent⟩

def close (f : Feed) : Feed := { f with closed := true }

/-- The next receipt, and the receiver after it. A lagging receiver moves to the oldest kept event. -/
def receive (f : Feed) (r : Receiver) : Receipt × Receiver :=
  if f.sent ≤ r.next then (if f.closed then .closed else .empty, r)
  else if f.recent.length < f.sent - r.next then
    (.lagged (f.sent - r.next - f.recent.length), ⟨f.sent - f.recent.length⟩)
  else match f.recent[f.sent - r.next - 1]? with
    | some e => (.event e, ⟨r.next + 1⟩)
    | none => (.empty, r)

def pending (f : Feed) (r : Receiver) : List MemberEvent :=
  (f.recent.take (f.sent - r.next)).reverse

end Feed
end HealthSignal
