import HealthSignal.RoundTrip.Machine

/-!
The persistence probe over a journal. Each store call may be held up, fail, hang, panic, or be carried
out without an answer; such faults are given by the kind of the call and by how many calls of that kind
came before. A worker that makes no further call exits at once.
-/
namespace HealthSignal.RoundTrip

inductive CallKind
  | load
  | replay
  | append
  | save
  | prune
  deriving DecidableEq, Repr

def Call.kind : Call → CallKind
  | .load => .load
  | .replay => .replay
  | .append .. => .append
  | .save .. => .save
  | .prune _ => .prune

inductive Effect
  | works
  | fails (error : JournalError)
  | hangs
  | panics
  /-- The journal takes the call, and no answer ever comes. -/
  | unanswered
  deriving DecidableEq, Repr

structure Fault where
  wait : Duration
  effect : Effect
  deriving DecidableEq, Repr

def Fault.none : Fault := ⟨⟨0⟩, .works⟩

abbrev Faults := CallKind → Nat → Fault

def Faults.none : Faults := fun _ _ => Fault.none

structure Session where
  machine : Machine
  journal : Journal
  faults : Faults
  fault : Fault
  /-- When the call in progress takes effect, or the worker exits. -/
  wake : Nat
  /-- The journal has taken the call in progress, whose worker waits for the answer in vain. -/
  taken : Bool
  /-- Every call with the time it was made, newest first. -/
  calls : List (Nat × Call)

namespace Session

/-- Notes the call that the worker has come to. Without one it is about to exit. -/
def issue (s : Session) (now : Nat) : Session :=
  match s.machine.worker? with
  | some w =>
    let earlier := s.calls.countP (·.2.kind == w.call.kind)
    let fault := s.faults w.call.kind (earlier + 1)
    { s with
      fault := fault, wake := now + fault.wait.timer, taken := false, calls := (now, w.call) :: s.calls }
  | none => { s with wake := now, taken := false }

def start (settings : Settings) (journal : Journal) (faults : Faults) (now : Nat) :
    Session × Option Status :=
  let (machine, status) := (Machine.new settings).dispatch now
  (issue ⟨machine, journal, faults, .none, now, false, []⟩ now, status)

def wake? (s : Session) : Option Nat :=
  match s.machine.phase with
  | .awaiting .. | .draining .. =>
    if s.fault.effect = .hangs ∨ s.taken then none else some s.wake
  | .leaving .. => some s.wake
  | .delaying _ | .stopped => none

/-- The worker comes before the timer of the phase. At the same time, an unreported round trip is over,
while a worker that has reported may still finish. -/
def workerFirst (s : Session) : Bool :=
  match s.wake?, s.machine.phase with
  | some wake, .awaiting _ deadline => wake < deadline
  | some wake, .draining _ deadline | some wake, .leaving _ deadline => wake ≤ deadline
  | _, _ => false

def due (s : Session) : Option Nat := if s.workerFirst then s.wake? else s.machine.timer?

/-- The clock in whole seconds, as far as a machine word counts. -/
def stampAt (now : Nat) : Nat := min (now / 1000) (UInt64.size - 1)

def perform (s : Session) (now : Nat) : Session × Option Status :=
  let finish (journal : Journal) (next : Machine × Option Status) : Session × Option Status :=
    (issue { s with journal := journal, machine := next.1 } now, next.2)
  match s.machine.worker? with
  | none => finish s.journal (s.machine.exit now)
  | some w =>
    let journal := (w.call.perform w.id (stampAt now) s.journal).2
    match s.fault.effect with
    | .works =>
      finish journal (s.machine.answer now fun c => (c.perform w.id (stampAt now) s.journal).1)
    | .fails e => finish s.journal (s.machine.answer now fun _ => .error e)
    | .panics => finish s.journal (s.machine.panic now)
    | .unanswered => ({ s with journal := journal, taken := true }, none)
    | .hangs => (s, none)

def act (s : Session) (now : Nat) : Session × Option Status :=
  if s.workerFirst then s.perform now
  else
    let next := s.machine.elapse now
    (issue { s with machine := next.1 } now, next.2)

def stop (s : Session) : Session := { s with machine := s.machine.stop }

end Session
end HealthSignal.RoundTrip
