import HealthSignal.Duration
import HealthSignal.RoundTrip.Worker

/-!
The persistence probe as a state machine over round trips. A worker has `timeout` to report, and again
`timeout` to exit once it has reported, was aborted or broke off; whatever comes of it, the next one
starts `delay` later. Times are milliseconds. Each step yields the status it leads to, if any.
-/
namespace HealthSignal.RoundTrip

structure Settings where
  id : String
  timeout : Duration
  delay : Duration
  deriving DecidableEq, Repr

def Settings.forNode (node : String) : Settings :=
  ⟨"pulse-liveness-" ++ node, .seconds 5, .seconds 10⟩

inductive Phase
  | awaiting (worker : Worker) (deadline : Nat)
  /-- The worker has reported and makes one more call. -/
  | draining (worker : Worker) (deadline : Nat)
  /-- The worker makes no further call and has not exited. It was `told` what became of the round trip,
  unless the worker broke off without a report. -/
  | leaving (told : Bool) (deadline : Nat)
  | delaying (resume : Nat)
  | stopped

structure Machine where
  settings : Settings
  attempt : Nat
  phase : Phase
  verdict : Verdict
  expect : Expectation

def timedOut (timeout : Duration) : Status :=
  .bad ("persistence round trip timed out after " ++ timeout.text)

def crashed : Status := .bad "persistence round trip worker crashed"

namespace Machine

def new (settings : Settings) : Machine := ⟨settings, 0, .stopped, .initial, .nothing⟩

def worker? (m : Machine) : Option Worker :=
  match m.phase with
  | .awaiting w _ | .draining w _ => some w
  | .leaving .. | .delaying _ | .stopped => none

def delay (m : Machine) (now : Nat) : Machine :=
  { m with phase := .delaying (now + m.settings.delay.timer) }

def leave (m : Machine) (told : Bool) (deadline : Nat) : Machine :=
  { m with phase := .leaving told deadline }

def drain (m : Machine) (now : Nat) (told : Bool) : Machine :=
  m.leave told (now + m.settings.timeout.timer)

/-- A worker is over with. One that never told what became of its round trip has crashed. -/
def dismiss (m : Machine) (now : Nat) (told : Bool) : Machine × Option Status :=
  (m.delay now, if told then none else some crashed)

def expire (m : Machine) (now : Nat) : Machine × Option Status :=
  (m.drain now true, some (timedOut m.settings.timeout))

/-- Starts a round trip. Without any time for it, it is over before its first call. -/
def dispatch (m : Machine) (now : Nat) : Machine × Option Status :=
  let attempt := m.attempt + 1
  let m := { m with attempt := attempt }
  if m.settings.timeout.millis = 0 then m.expire now
  else
    let worker := Worker.start m.settings.id attempt m.expect
    ({ m with phase := .awaiting worker (now + m.settings.timeout.timer) }, none)

def evaluate (m : Machine) (r : Report) : Machine × Option Status :=
  let verdict := m.verdict.update r
  ({ m with verdict := verdict, expect := m.expect.update r }, some verdict.status)

def proceed (m : Machine) (now : Nat) (w : Worker) (deadline : Nat) :
    Worker.Progress → Machine × Option Status
  | .ask stage => ({ m with phase := .awaiting { w with stage := stage } deadline }, none)
  | .report r next =>
    let (m, status) := m.evaluate r
    match next with
    | some stage =>
      ({ m with
        phase := .draining { w with stage := stage } (now + m.settings.timeout.timer) }, status)
    | none => (m.drain now true, status)
  | .exit => (m.drain now false, none)

abbrev Answers := (c : Call) → Except JournalError c.Answer

def answer (m : Machine) (now : Nat) (answers : Answers) : Machine × Option Status :=
  match m.phase with
  | .awaiting w deadline => m.proceed now w deadline (w.resume (answers w.call))
  | .draining _ deadline => (m.leave true deadline, none)
  | .leaving .. | .delaying _ | .stopped => (m, none)

/-- The worker panics. Before its report this shows as a crash once it has exited. -/
def panic (m : Machine) (now : Nat) : Machine × Option Status :=
  match m.phase with
  | .awaiting .. => (m.drain now false, none)
  | .draining _ deadline => (m.leave true deadline, none)
  | .leaving .. | .delaying _ | .stopped => (m, none)

def exit (m : Machine) (now : Nat) : Machine × Option Status :=
  match m.phase with
  | .awaiting .. => m.dismiss now false
  | .draining .. => m.dismiss now true
  | .leaving told _ => m.dismiss now told
  | .delaying _ | .stopped => (m, none)

/-- The timer of the phase runs out. A worker that has not exited by then is aborted. -/
def elapse (m : Machine) (now : Nat) : Machine × Option Status :=
  match m.phase with
  | .awaiting .. => m.expire now
  | .draining .. => m.dismiss now true
  | .leaving told _ => m.dismiss now told
  | .delaying _ => m.dispatch now
  | .stopped => (m, none)

def stop (m : Machine) : Machine := { m with phase := .stopped }

def timer? (m : Machine) : Option Nat :=
  match m.phase with
  | .awaiting _ deadline | .draining _ deadline | .leaving _ deadline => some deadline
  | .delaying resume => some resume
  | .stopped => none

end Machine
end HealthSignal.RoundTrip
