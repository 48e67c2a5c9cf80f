import HealthSignal.Provider
import HealthSignal.RoundTrip.Machine

/-!
The configuration of a node, section by section, with the values that stand in for what it leaves
out. Durations and providers are kept as the texts they were given as.
-/
namespace HealthSignal

structure NodeConfig where
  id : String := "pulse-node"
  deriving DecidableEq, Repr

structure HttpConfig where
  host : String := "0.0.0.0"
  port : UInt16 := 8558
  askTimeout : Option String := none
  deriving DecidableEq, Repr

inductive Destination
  | file (path : String)
  | tcp (address : String)
  deriving DecidableEq, Repr

structure SignalConfig where
  provider : Option String := none
  destination : Option Destination := none
  /-- For readiness: show it together with liveness. -/
  includeLiveness : Bool := false
  deriving DecidableEq, Repr

structure PersistenceConfig where
  path : String := "pulse-journal.redb"
  id : Option String := none
  timeout : Option String := none
  interval : Option String := none
  deriving DecidableEq, Repr

structure ClusterConfig where
  isolationDebounce : Option String := none
  deriving DecidableEq, Repr

structure TransportConfig where
  deadline : Option String := none
  restartBackoff : Option String := none
  deriving DecidableEq, Repr

structure Config where
  node : NodeConfig := {}
  http : HttpConfig := {}
  liveness : SignalConfig := {}
  readiness : SignalConfig := {}
  persistence : PersistenceConfig := {}
  cluster : ClusterConfig := {}
  transport : TransportConfig := {}
  deriving DecidableEq, Repr

namespace Config

def signal (c : Config) : Signal → SignalConfig
  | .liveness => c.liveness
  | .readiness => c.readiness

def provider (c : Config) (s : Signal) : String :=
  (c.signal s).provider.getD (Provider.defaultFor s).name

def askTimeout (c : Config) : Except ConfigError Duration :=
  Duration.readOr (.seconds 1) c.http.askTimeout

def deadline (c : Config) : Except ConfigError Duration :=
  Duration.readOr (.seconds 1) c.transport.deadline

def restartBackoff (c : Config) : Except ConfigError Duration :=
  Duration.readOr ⟨500⟩ c.transport.restartBackoff

def isolationDebounce (c : Config) : Except ConfigError Duration :=
  Duration.readOr (.seconds 20) c.cluster.isolationDebounce

def roundTrips (c : Config) : Except ConfigError RoundTrip.Settings := do
  let default := RoundTrip.Settings.forNode c.node.id
  let timeout ← Duration.readOr default.timeout c.persistence.timeout
  let delay ← Duration.readOr default.delay c.persistence.interval
  return ⟨c.persistence.id.getD default.id, timeout, delay⟩

end Config
end HealthSignal
