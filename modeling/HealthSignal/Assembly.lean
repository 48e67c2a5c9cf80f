import HealthSignal.Probe.Basic
import HealthSignal.Sync.Basic

/-!
Probes and the components that show them, running together in virtual time.
-/
namespace HealthSignal

structure Subscription where
  key : String
  id : SubscriberId
  /-- How many deliveries were passed on. -/
  seen : Nat
  deriving DecidableEq, Repr

structure Carrier where
  sync : Sync
  subscriptions : List Subscription

structure Assembly where
  feed : Feed
  /-- Probes by key, in byte order of the keys. -/
  probes : List (String × Probe)
  carriers : List Carrier
  surroundings : Surroundings
  nextId : SubscriberId

namespace Assembly

def new (feed : Feed) (probes : List (String × Probe)) (files : FileTree) : Assembly :=
  ⟨feed, probes, [], ⟨files, .empty⟩, 0⟩

def probe? (s : Assembly) (key : String) : Option Probe := s.probes.lookup key

def alive (s : Assembly) (key : String) : Bool := (s.probe? key).any (·.running)

def dead (s : Assembly) (keys : List String) : List String := keys.filter (!s.alive ·)

def modifyProbe (s : Assembly) (key : String) (f : Probe → Probe) : Assembly :=
  { s with probes := s.probes.map fun (k, p) => if k = key then (k, f p) else (k, p) }

def subscribeAll (s : Assembly) (keys : List String) : Assembly × List Subscription :=
  (keys.filter s.alive).foldl
    (fun (s, subs) key =>
      ({ s.modifyProbe key fun p => { p with hub := p.hub.subscribe s.nextId } with
          nextId := s.nextId + 1 },
        subs ++ [⟨key, s.nextId, 0⟩]))
    (s, [])

def release (s : Assembly) (subs : List Subscription) : Assembly :=
  subs.foldl (fun s sub => s.modifyProbe sub.key fun p =>
    { p with hub := (p.hub.lose sub.id).settle }) s

/-- Passes the news of one subscription on. It is over once its probe has ended. -/
def forward (s : Assembly) (sync : Sync) (sub : Subscription) : Sync × Option Subscription :=
  match s.probe? sub.key with
  | none => (sync, none)
  | some p =>
    let all := p.hub.received sub.id
    let sync := (all.drop sub.seen).foldl (fun k st => k.deliver ⟨sub.key, some st⟩) sync
    if p.running then (sync, some { sub with seen := all.length })
    else (sync.deliver ⟨sub.key, none⟩, none)

/-- Passes all news of a carrier on, or ends its subscriptions if its run has stopped to listen. -/
def refresh (s : Assembly) (c : Carrier) : Assembly × Carrier :=
  if c.sync.running && c.sync.run.listening then
    let (sync, subs) := c.subscriptions.foldl
      (fun (sync, subs) sub =>
        let (sync, sub) := s.forward sync sub
        (sync, subs ++ sub.toList))
      (c.sync, [])
    (s, ⟨sync, subs⟩)
  else (s.release c.subscriptions, ⟨c.sync, []⟩)

def refreshAll (s : Assembly) : Assembly :=
  let (s, carriers) := s.carriers.foldl
    (fun (s, cs) c =>
      let (s, c) := s.refresh c
      (s, cs ++ [c]))
    (s, [])
  { s with carriers := carriers }

def addSync (s : Assembly) (signal : Signal) (keys : List String) (aggregated : Bool)
    (limit : Duration) (transport : Transport) (strategy : Strategy) (now : Nat) : Assembly :=
  let sync := Sync.start signal keys aggregated limit transport strategy false (s.dead keys) now
  let (s, subs) := s.subscribeAll keys
  refreshAll { s with carriers := s.carriers ++ [⟨sync, subs⟩] }

def earlier : Option Nat → Option Nat → Option Nat
  | some a, some b => some (min a b)
  | some a, none => some a
  | none, b => b

def due (s : Assembly) : Option Nat :=
  (s.probes.map fun (_, p) => p.due s.feed).foldl earlier
    ((s.carriers.map (·.sync.due)).foldl earlier none)

def splitDue (t : Nat) : List Carrier → Option (List Carrier × Carrier × List Carrier)
  | [] => none
  | c :: rest =>
    if c.sync.due.any (· ≤ t) then some ([], c, rest)
    else (splitDue t rest).map fun (before, d, after) => (c :: before, d, after)

def actCarrier (s : Assembly) (now : Nat) (c : Carrier) : Assembly × Carrier :=
  let fresh := c.sync.supervisor.timer?.isSome
  let (sync, surroundings) := c.sync.act (s.dead c.sync.keys) s.surroundings now
  let s := { s with surroundings := surroundings }
  if fresh then
    let (s, subs) := s.subscribeAll c.sync.keys
    (s, ⟨sync, subs⟩)
  else (s, ⟨sync, c.subscriptions⟩)

/-- Acts at a moment that `due` gave: probes come before components. -/
def act (s : Assembly) (now : Nat) : Assembly :=
  match s.probes.find? fun (_, p) => (p.due s.feed).any (· ≤ now) with
  | some (key, _) => (s.modifyProbe key (·.act s.feed now)).refreshAll
  | none =>
    match splitDue now s.carriers with
    | some (before, c, after) =>
      let (s, c) := s.actCarrier now c
      refreshAll { s with carriers := before ++ c :: after }
    | none => s

def backlog (s : Assembly) : Nat :=
  s.carriers.foldl (fun n c => n + 4 * c.sync.run.queue.length + 8) s.feed.sent

def advance (s : Assembly) (now horizon : Nat) : Assembly :=
  Timeline.run due act horizon
    (Timeline.steps (1024 * (s.probes.length + s.carriers.length + 1)) s.backlog now horizon) now s

def command (s : Assembly) (key : String) (f : Probe → Except ProbeError Probe) :
    Assembly × Option (Except ProbeError Unit) :=
  match s.probe? key with
  | none => (s, none)
  | some p =>
    match f p with
    | .ok p => ((s.modifyProbe key fun _ => p).refreshAll, some (.ok ()))
    | .error e => (s, some (.error e))

def stopProbe (s : Assembly) (key : String) : Assembly := (s.modifyProbe key Probe.stop).refreshAll

def requestShutdown (s : Assembly) : Assembly :=
  { s with carriers := s.carriers.map fun c => { c with sync := c.sync.requestShutdown } }

end Assembly
end HealthSignal
