import HealthSignal.Probe.Hub
import HealthSignal.Probe.Isolation
import HealthSignal.Provider
import HealthSignal.RoundTrip.Session
import HealthSignal.Timeline

/-!
Probes: a hub and what decides its status. Queries and subscriptions touch the hub alone.
-/
namespace HealthSignal

inductive ProbeError
  | terminated (name : String)
  | unanswered (name : String) (limit : Duration)
  deriving DecidableEq, Repr

def ProbeError.message : ProbeError → String
  | .terminated name => "probe " ++ name ++ " has terminated"
  | .unanswered name limit => "probe " ++ name ++ " did not answer within " ++ limit.text

inductive Source
  | fixed
  /-- Whoever hands statuses in. Those that wait are listed with the oldest first. -/
  | manual (waiting : List Status)
  | cluster (watch : ClusterWatch)
  | persistence (session : RoundTrip.Session)

structure Probe where
  name : String
  signal : Signal
  hub : Hub
  running : Bool
  source : Source

namespace Probe

def start (name : String) (signal : Signal) (initial : Status) (source : Source) : Probe :=
  ⟨name, signal, .new initial, true, source⟩

def manual (name : String) (signal : Signal) (initial : Status) : Probe :=
  start name signal initial (.manual [])

def unavailable (signal : Signal) (reason : String) : Probe :=
  start "unavailable" signal
    (.bad ("misconfigured " ++ signal.name ++ " probe: " ++ reason)) .fixed

def clusterLiveness (node : String) (feed : Feed) (now : Nat) : Probe :=
  let watch := ClusterWatch.start feed node none now
  start "cluster-liveness" .liveness watch.status (.cluster watch)

def clusterReadiness (node : String) (feed : Feed) (debounce : Duration) (now : Nat) : Probe :=
  let watch := ClusterWatch.start feed node (some debounce) now
  start "cluster-readiness" .readiness watch.status (.cluster watch)

def follow (p : Probe) : Option Status → Probe
  | some s => { p with hub := p.hub.transition s }
  | none => p

def persistence (settings : RoundTrip.Settings) (journal : Journal) (faults : RoundTrip.Faults)
    (now : Nat) : Probe :=
  let (session, status) := RoundTrip.Session.start settings journal faults now
  (start "persistence-liveness" .liveness RoundTrip.warmingUp (.persistence session)).follow status

/-- Publishes the first of the statuses that wait, repeated or not. -/
def publishNext (p : Probe) : List Status → Probe
  | [] => p
  | s :: rest => { p with hub := p.hub.publish s, source := .manual rest }

/-- When the probe has to act next, given the membership feed; time zero stands for at once. -/
def due (feed : Feed) (p : Probe) : Option Nat :=
  if !p.running then none
  else match p.source with
    | .fixed => none
    | .manual waiting => if waiting.isEmpty then none else some 0
    | .cluster watch => watch.due feed
    | .persistence session => session.due

def act (feed : Feed) (p : Probe) (now : Nat) : Probe :=
  match p.source with
  | .fixed => p
  | .manual waiting => p.publishNext waiting
  | .cluster watch =>
    let watch := watch.act now feed
    follow { p with source := .cluster watch } watch.status
  | .persistence session =>
    let (session, status) := session.act now
    follow { p with source := .persistence session } status

def advance (feed : Feed) (now horizon : Nat) (p : Probe) : Probe :=
  Timeline.run (due feed) (act feed) horizon (Timeline.steps 1024 feed.sent now horizon) now p

/-- Asks for the current status. No answer arrives within no time. -/
def ask (p : Probe) (limit : Duration) : Except ProbeError Status :=
  if !p.running then .error (.terminated p.name)
  else if limit.millis = 0 then .error (.unanswered p.name limit)
  else .ok p.hub.current

def command (p : Probe) (f : Hub → Hub) : Except ProbeError Probe :=
  if p.running then .ok { p with hub := f p.hub } else .error (.terminated p.name)

def set (p : Probe) (s : Status) : Except ProbeError Probe :=
  match p.running, p.source with
  | true, .manual waiting => .ok { p with source := .manual (waiting ++ [s]) }
  | _, _ => .error (.terminated p.name)

/-- Ends the probe. Statuses that wait are lost. -/
def stop (p : Probe) : Probe :=
  { p with
    running := false
    hub := { p.hub with subscribers := [] }
    source := match p.source with
      | .manual _ => .manual []
      | .persistence session => .persistence session.stop
      | source => source }

structure Means where
  node : String
  feed : Feed
  journal : Except JournalError Journal
  settings : RoundTrip.Settings
  debounce : Duration

/-- The probe that a provider text stands for. A text that cannot be used gives a stand-in. -/
def build (signal : Signal) (provider : String) (means : Means) (now : Nat) : Probe :=
  match Provider.resolve signal provider, signal with
  | .error e, _ => unavailable signal e.message
  | .ok .default, _ =>
    manual "default" signal (.good (signal.name ++ " reported by default provider"))
  | .ok .cluster, .liveness => clusterLiveness means.node means.feed now
  | .ok .cluster, .readiness => clusterReadiness means.node means.feed means.debounce now
  | .ok .persistence, _ =>
    match means.journal with
    | .ok journal => persistence means.settings journal .none now
    | .error e => unavailable signal ("journal could not be opened: " ++ e.message)

end Probe
end HealthSignal
