import HealthSignal.Aggregate
import HealthSignal.Transport.Error

/-!
One run of a component that shows probes on an external signal. It takes updates in the order of their
arrival, makes one call at a time under a deadline, and however it ends, makes one last call to lower
the signal. A failed call ends the run; the last call changes its outcome only by a panic. Where both
updates and a request to shut down wait for it, either may come first.
-/
namespace HealthSignal

inductive RelayEnd
  | completed
  | failed (cause : TransportError)
  | panicked
  deriving DecidableEq, Repr

structure Update where
  key : String
  status : Option Status
  deriving DecidableEq, Repr

namespace Relay

inductive Activity
  | idle
  /-- In a call, which is over at the deadline at the latest. -/
  | calling (deadline : Nat)
  | closing (outcome : RelayEnd) (deadline : Nat)
  | ended (outcome : RelayEnd)
  deriving DecidableEq, Repr

end Relay

structure Relay where
  queue : List Update
  /-- The state of several probes; `none` for a run that follows a single one. -/
  aggregate : Option Aggregate
  activity : Relay.Activity
  deriving DecidableEq, Repr

namespace Relay

def farewell : Decision := .stop "health signal shutting down"

def start (aggregate : Option Aggregate) (queue : List Update) : Relay :=
  ⟨queue, aggregate, .idle⟩

def close (m : Relay) (limit now : Nat) (outcome : RelayEnd) : Relay × Option Decision :=
  ({ m with activity := .closing outcome (now + limit) }, some farewell)

def place (m : Relay) (limit now : Nat) (d : Decision) : Relay × Option Decision :=
  ({ m with activity := .calling (now + limit) }, some d)

def exhausted (m : Relay) : Bool := m.aggregate.any (·.allTerminated)

def take (m : Relay) (limit now : Nat) (u : Update) : Relay × Option Decision :=
  match m.aggregate, u.status with
  | none, some s => m.place limit now s.decision
  | none, none => m.close limit now .completed
  | some a, status =>
    let (a, decision) := match status with
      | some s => a.report u.key s
      | none => a.terminate u.key
    let m := { m with aggregate := some a }
    match decision with
    | some d => m.place limit now d
    | none => if m.exhausted then m.close limit now .completed else (m, none)

def ready (m : Relay) (shutdown : Bool) : Bool :=
  m.activity == .idle && (shutdown || !m.queue.isEmpty || m.exhausted)

/-- Goes on between calls, with the request to shut down if it is to take that now. -/
def next (m : Relay) (limit now : Nat) (asked : Bool) : Relay × Option Decision :=
  match m.activity with
  | .idle =>
    if asked then m.close limit now .completed
    else match m.queue with
      | u :: rest => take { m with queue := rest } limit now u
      | [] => if m.exhausted then m.close limit now .completed else (m, none)
  | _ => (m, none)

inductive Result
  | answered (r : Except TransportError Unit)
  | panicked

def resolve (m : Relay) (limit now : Nat) (r : Result) : Relay × Option Decision :=
  match m.activity, r with
  | .calling _, .answered (.ok ()) =>
    if m.exhausted then m.close limit now .completed else ({ m with activity := .idle }, none)
  | .calling _, .answered (.error e) => m.close limit now (.failed e)
  | .calling _, .panicked => m.close limit now .panicked
  | .closing outcome _, .answered _ => ({ m with activity := .ended outcome }, none)
  | .closing _ _, .panicked => ({ m with activity := .ended .panicked }, none)
  | _, _ => (m, none)

def deadline? (m : Relay) : Option Nat :=
  match m.activity with
  | .calling deadline | .closing _ deadline => some deadline
  | _ => none

def listening (m : Relay) : Bool :=
  match m.activity with
  | .idle | .calling _ => true
  | _ => false

end Relay
end HealthSignal
