import HealthSignal.Supervisor
import HealthSignal.Sync.Relay
import HealthSignal.Transport.File
import HealthSignal.Transport.Socket

/-!
A supervised component that shows probes on an external signal, run after run.
-/
namespace HealthSignal

inductive CallEffect
  | answers (r : Except TransportError Unit)
  | hangs
  | panics

structure CallFate where
  wait : Duration
  effect : CallEffect

inductive Transport
  | file (f : SignalFile)
  | socket (k : SignalSocket)
  /-- The fate of the n-th call of each kind, from one; the flag tells `go` from `stop`. -/
  | rehearsed (fates : Bool → Nat → CallFate)

structure Surroundings where
  files : FileTree
  sockets : Sockets

def Transport.perform (t : Transport) (w : Surroundings) (d : Decision) :
    Transport × Surroundings × Except TransportError Unit :=
  match t with
  | .file f =>
    let (files, r) := f.call w.files d
    (t, { w with files := files }, r.mapError .io)
  | .socket k =>
    let ((k, sockets), r) := k.call w.sockets d
    (.socket k, { w with sockets := sockets }, r.mapError .io)
  | .rehearsed _ => (t, w, .ok ())

structure Sync where
  signal : Signal
  keys : List String
  aggregated : Bool
  limit : Duration
  transport : Transport
  supervisor : Supervisor
  run : Relay
  /-- Every call with the time it was made, newest first. -/
  calls : List (Nat × Decision)

namespace Sync

def nameFor (signal : Signal) (aggregated : Bool) : String :=
  signal.name ++ (if aggregated then "-aggregate-sync" else "-sync")

/-- A fresh run. Probes that have ended are known at once; the others report first. -/
def freshRun (keys : List String) (aggregated : Bool) (dead : List String) : Relay :=
  .start (if aggregated then some (.new keys) else none) (dead.map (⟨·, none⟩))

def start (signal : Signal) (keys : List String) (aggregated : Bool) (limit : Duration)
    (transport : Transport) (strategy : Strategy) (shutdown : Bool) (dead : List String)
    (now : Nat) : Sync :=
  ⟨signal, keys, aggregated, limit, transport,
    .start (nameFor signal aggregated) strategy shutdown now, freshRun keys aggregated dead, []⟩

def name (s : Sync) : String := s.supervisor.name

def running (s : Sync) : Bool := s.supervisor.phase == .running

def fate (s : Sync) : CallFate :=
  match s.transport, s.calls with
  | .rehearsed fates, (_, d) :: _ => fates d.isGo (s.calls.countP (·.2.isGo == d.isGo))
  | _, _ => ⟨⟨0⟩, .answers (.ok ())⟩

/-- When the call in progress is answered, if it is before its deadline or just then. -/
def answerTime? (s : Sync) : Option Nat :=
  match s.run.deadline?, s.calls, s.fate.effect with
  | _, _, .hangs => none
  | some deadline, (made, _) :: _, _ =>
    if made + s.fate.wait.timer ≤ deadline then some (made + s.fate.wait.timer) else none
  | _, _, _ => none

/-- When the component has to act next; time zero stands for at once. -/
def due (s : Sync) : Option Nat :=
  match s.supervisor.phase with
  | .exited _ => none
  | .waiting resume => some resume
  | .running =>
    if s.run.ready s.supervisor.shutdown then some 0
    else match s.answerTime? with
      | some t => some t
      | none => s.run.deadline?

def runEnd (signal : Signal) : RelayEnd → RunEnd
  | .completed => .completed
  | .failed cause => .failed (UpdateError.message ⟨signal, cause⟩)
  | .panicked => .panicked

def follow (s : Sync) (now : Nat) (step : Relay × Option Decision) : Sync :=
  let s := { s with
    run := step.1
    calls := match step.2 with
      | some d => (now, d) :: s.calls
      | none => s.calls }
  match s.run.activity with
  | .ended outcome => { s with supervisor := s.supervisor.ended now (runEnd s.signal outcome) }
  | _ => s

def outcome (s : Sync) (w : Surroundings) : Sync × Surroundings × Relay.Result :=
  match s.answerTime?, s.calls with
  | some _, (_, d) :: _ =>
    match s.transport, s.fate.effect with
    | .rehearsed _, .answers r => (s, w, .answered r)
    | .rehearsed _, _ => (s, w, .panicked)
    | t, _ =>
      let (t, w, r) := t.perform w d
      ({ s with transport := t }, w, .answered r)
  | _, _ => (s, w, .answered (.error (.deadline s.limit)))

/-- Acts at the time that `due` gave. `dead` tells which probes have ended, for a fresh run. Updates that wait
come before a request to shut down. -/
def act (s : Sync) (dead : List String) (w : Surroundings) (now : Nat) : Sync × Surroundings :=
  match s.supervisor.phase with
  | .exited _ => (s, w)
  | .waiting _ =>
    ({ s with
      supervisor := s.supervisor.resume now
      run := freshRun s.keys s.aggregated dead }, w)
  | .running =>
    if s.run.ready s.supervisor.shutdown then
      (s.follow now (s.run.next s.limit.timer now (s.supervisor.shutdown && s.run.queue.isEmpty)), w)
    else
      let (s, w, r) := s.outcome w
      (s.follow now (s.run.resolve s.limit.timer now r), w)

def deliver (s : Sync) (u : Update) : Sync :=
  if s.running && s.run.listening then
    { s with run := { s.run with queue := s.run.queue ++ [u] } }
  else s

def requestShutdown (s : Sync) : Sync := { s with supervisor := s.supervisor.requestShutdown }

end Sync
end HealthSignal
