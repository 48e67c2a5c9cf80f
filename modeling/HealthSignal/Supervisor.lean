import HealthSignal.Duration

/-!
Supervision of a component. A run that fails or panics is followed by a fresh one after a backoff,
unless the strategy is to stop or shutdown was requested; a run that completes is not repeated.
Times are milliseconds.
-/
namespace HealthSignal

inductive RunEnd
  | completed
  | failed (reason : String)
  | panicked
  deriving DecidableEq, Repr

inductive Strategy
  | stop
  | restart (backoff : Duration)
  deriving DecidableEq, Repr

inductive Exit
  | completed
  | shutdown
  | failed (reason : String)
  deriving DecidableEq, Repr

namespace Supervisor

inductive Phase
  | running
  | waiting (resume : Nat)
  | exited (exit : Exit)
  deriving DecidableEq, Repr

end Supervisor

structure Supervisor where
  name : String
  strategy : Strategy
  phase : Supervisor.Phase
  restarts : Nat
  shutdown : Bool
  /-- When the runs started, newest first. -/
  starts : List Nat
  deriving DecidableEq, Repr

namespace Supervisor

/-- Starts the first run, even if shutdown was requested before. -/
def start (name : String) (strategy : Strategy) (shutdown : Bool) (now : Nat) : Supervisor :=
  ⟨name, strategy, .running, 0, shutdown, [now]⟩

def complaint (name : String) : RunEnd → Option String
  | .completed => none
  | .failed reason => some reason
  | .panicked => some (name ++ " panicked")

def afterRun (s : Supervisor) (now : Nat) (e : RunEnd) : Phase :=
  match complaint s.name e, s.strategy with
  | none, _ => .exited (if s.shutdown then .shutdown else .completed)
  | some reason, .stop => .exited (.failed reason)
  | some _, .restart backoff =>
    if s.shutdown then .exited .shutdown else .waiting (now + backoff.timer)

def ended (s : Supervisor) (now : Nat) (e : RunEnd) : Supervisor :=
  match s.phase with
  | .running => { s with phase := s.afterRun now e }
  | _ => s

def resume (s : Supervisor) (now : Nat) : Supervisor :=
  match s.phase with
  | .waiting _ =>
    { s with phase := .running, restarts := s.restarts + 1, starts := now :: s.starts }
  | _ => s

def requestShutdown (s : Supervisor) : Supervisor :=
  let s := { s with shutdown := true }
  match s.phase with
  | .waiting _ => { s with phase := .exited .shutdown }
  | _ => s

def timer? (s : Supervisor) : Option Nat :=
  match s.phase with
  | .waiting resume => some resume
  | _ => none

def exit? (s : Supervisor) : Option Exit :=
  match s.phase with
  | .exited e => some e
  | _ => none

end Supervisor

inductive Cue
  | after (wait : Duration)
  /-- Once shutdown is requested, but not before the wait is over. -/
  | onShutdown (wait : Duration)
  deriving DecidableEq, Repr

structure RunPlan where
  cue : Cue
  result : RunEnd
  deriving DecidableEq, Repr

structure Rehearsal where
  plans : Nat → RunPlan
  supervisor : Supervisor

namespace Rehearsal

def start (name : String) (strategy : Strategy) (shutdown : Bool) (plans : Nat → RunPlan)
    (now : Nat) : Rehearsal :=
  ⟨plans, .start name strategy shutdown now⟩

def plan (r : Rehearsal) : RunPlan := r.plans r.supervisor.starts.length

def runEnd? (r : Rehearsal) : Option Nat :=
  match r.supervisor.starts, r.plan.cue with
  | started :: _, .after wait => some (started + wait.timer)
  | started :: _, .onShutdown wait =>
    if r.supervisor.shutdown then some (started + wait.timer) else none
  | [], _ => none

def due (r : Rehearsal) : Option Nat :=
  match r.supervisor.phase with
  | .running => r.runEnd?
  | .waiting resume => some resume
  | .exited _ => none

def act (r : Rehearsal) (now : Nat) : Rehearsal :=
  match r.supervisor.phase with
  | .running => { r with supervisor := r.supervisor.ended now r.plan.result }
  | .waiting _ => { r with supervisor := r.supervisor.resume now }
  | .exited _ => r

def requestShutdown (r : Rehearsal) : Rehearsal :=
  { r with supervisor := r.supervisor.requestShutdown }

end Rehearsal
end HealthSignal
