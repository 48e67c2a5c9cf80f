import HealthSignal.Membership.Feed
import HealthSignal.Membership.View

/-!
Cluster probes: a view kept up to date from a membership feed and, for readiness, the one timer
that turns a node without reachable peers into an isolated one. Times are milliseconds.
-/
namespace HealthSignal

structure Isolation where
  debounce : Duration
  timer : Option Nat
  isolated : Bool
  deriving DecidableEq, Repr

namespace Isolation

def new (debounce : Duration) : Isolation := ⟨debounce, none, false⟩

def reconcile (i : Isolation) (now : Nat) (v : ClusterView) : Isolation :=
  if v.alone then
    if i.timer.isNone && !i.isolated then { i with timer := some (now + i.debounce.timer) } else i
  else { i with timer := none, isolated := false }

def elapse (i : Isolation) (v : ClusterView) : Isolation :=
  { i with timer := none, isolated := i.isolated || v.alone }

end Isolation

structure ClusterWatch where
  view : ClusterView
  isolation : Option Isolation
  receiver : Receiver
  /-- The feed has not been seen to close. -/
  feedOpen : Bool
  deriving DecidableEq, Repr

namespace ClusterWatch

def status (w : ClusterWatch) : Status :=
  match w.isolation with
  | none => w.view.liveness
  | some i => w.view.readiness i.debounce i.isolated

def reconcile (w : ClusterWatch) (now : Nat) : ClusterWatch :=
  { w with isolation := w.isolation.map (·.reconcile now w.view) }

def start (feed : Feed) (node : String) (debounce : Option Duration) (now : Nat) : ClusterWatch :=
  reconcile ⟨.new node feed.snapshot, debounce.map .new, feed.subscribe, true⟩ now

/-- Takes one receipt from the feed. After missed events it starts over from the feed's snapshot. -/
def receive (w : ClusterWatch) (now : Nat) (feed : Feed) : ClusterWatch :=
  match feed.receive w.receiver with
  | (.event e, r) => reconcile { w with view := w.view.apply e, receiver := r } now
  | (.lagged _, _) =>
    reconcile { w with view := w.view.resync feed.snapshot, receiver := feed.subscribe } now
  | (.closed, _) => { w with feedOpen := false }
  | (.empty, _) => w

def ready (w : ClusterWatch) (feed : Feed) : Bool :=
  w.feedOpen && (feed.closed || w.receiver.next < feed.sent)

def due (w : ClusterWatch) (feed : Feed) : Option Nat :=
  if w.ready feed then some 0 else w.isolation.bind (·.timer)

/-- Acts: receipts come before the timer. -/
def act (w : ClusterWatch) (now : Nat) (feed : Feed) : ClusterWatch :=
  if w.ready feed then w.receive now feed
  else { w with isolation := w.isolation.map (·.elapse w.view) }

end ClusterWatch
end HealthSignal
