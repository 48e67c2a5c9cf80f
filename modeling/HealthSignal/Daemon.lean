import HealthSignal.Assembly
import HealthSignal.Config.Basic
import HealthSignal.Http
import HealthSignal.Journal.File

/-!
A node's two probes, the components that show them as the configuration says, and HTTP on top. All
configured durations are read before anything is opened or started.
-/
namespace HealthSignal

structure Limits where
  deadline : Duration
  restartBackoff : Duration
  askTimeout : Duration
  roundTrips : RoundTrip.Settings
  isolationDebounce : Duration
  deriving DecidableEq, Repr

/-- Reads the durations; of several that are invalid the first one counts. -/
def Config.limits (c : Config) : Except ConfigError Limits := do
  let deadline ← c.deadline
  let restartBackoff ← c.restartBackoff
  let askTimeout ← c.askTimeout
  let roundTrips ← c.roundTrips
  let isolationDebounce ← c.isolationDebounce
  return ⟨deadline, restartBackoff, askTimeout, roundTrips, isolationDebounce⟩

structure Daemon where
  assembly : Assembly
  askTimeout : Duration

namespace Daemon

/-- Stands for a journal that no probe needs. -/
def unwanted : JournalError := ⟨.opening, "no persistence provider configured"⟩

def openJournal (g : Journal.Engine) (c : Config) (t : FileTree) : FileTree × Except JournalError Journal :=
  match Provider.resolve .liveness (c.provider .liveness) with
  | .ok .persistence => Journal.openFile g t (.ofString c.persistence.path)
  | _ => (t, .error unwanted)

def transport : Destination → Transport
  | .file path => .file ⟨.ofString path⟩
  | .tcp address => .socket (.new address)

def followed (c : Config) : Signal → List String
  | .liveness => [Signal.liveness.name]
  | .readiness =>
    if c.readiness.includeLiveness then [Signal.liveness.name, Signal.readiness.name]
    else [Signal.readiness.name]

def addComponent (c : Config) (l : Limits) (now : Nat) (a : Assembly) (s : Signal) : Assembly :=
  match (c.signal s).destination with
  | none => a
  | some d =>
    let keys := followed c s
    a.addSync s keys (keys.length != 1) l.deadline (transport d) (.restart l.restartBackoff) now

def addProbes (c : Config) (means : Probe.Means) (now : Nat) (a : Assembly) : Assembly :=
  { a with probes := [Signal.liveness, .readiness].map fun s => (s.name, Probe.build s (c.provider s) means now) }

def onFiles {α : Type} (f : FileTree → FileTree × α) (a : Assembly) : α × Assembly :=
  let (t, x) := f a.surroundings.files
  (x, { a with surroundings := { a.surroundings with files := t } })

/-- Reads the durations, opens the journal, builds the probes and starts the components, in this order. What
has been opened and started before a failure stays. -/
def launch (g : Journal.Engine) (c : Config) (now : Nat) : ExceptT ConfigError (StateM Assembly) Duration := do
  let l ← ofExcept c.limits
  let journal ← modifyGet (onFiles (openJournal g c))
  modify (addProbes c ⟨c.node.id, .standalone c.node.id, journal, l.roundTrips, l.isolationDebounce⟩ now)
  for s in [Signal.liveness, .readiness] do
    modify (addComponent c l now · s)
  return l.askTimeout

def start (g : Journal.Engine) (c : Config) (t : FileTree) (now : Nat) : Assembly × Except ConfigError Daemon :=
  let (timeout, a) := (launch g c now).run (.new (Feed.standalone c.node.id).close [] t)
  (a, timeout.map (⟨a, ·⟩))

def files (d : Daemon) : FileTree := d.assembly.surroundings.files

def setFiles (d : Daemon) (t : FileTree) : Daemon :=
  { d with assembly := { d.assembly with
      surroundings := { d.assembly.surroundings with files := t } } }

def probe? (d : Daemon) (s : Signal) : Option Probe := d.assembly.probe? s.name

def ask (d : Daemon) (s : Signal) : Except ProbeError Status :=
  match d.probe? s with
  | some p => p.ask d.askTimeout
  | none => .error (.terminated s.name)

def respond (d : Daemon) (method target : String) : Http.Response :=
  Http.respond d.ask method target

def advance (d : Daemon) (now horizon : Nat) : Daemon :=
  { d with assembly := d.assembly.advance now horizon }

def cancel (d : Daemon) : Daemon := { d with assembly := d.assembly.requestShutdown }

/-- Ends the components, which lower their signals, and then the probes. Calls on files and sockets
take no time, so nothing has to be waited for. -/
def shutdown (d : Daemon) (now : Nat) : Daemon :=
  let d := d.cancel.advance now now
  { d with assembly :=
      (d.assembly.stopProbe Signal.liveness.name).stopProbe Signal.readiness.name }

end Daemon
end HealthSignal
