import HealthSignal.Config.Basic
import HealthSignal.Config.Schema
import HealthSignal.Toml.Plain
import HealthSignal.Transport.Error

/-!
Configurations as TOML documents: what a document configures, and the document of a configuration. An
option that is not set is left out of the document.
-/
namespace HealthSignal
open Config
open Toml (Plain)

/-! ### Reading -/

namespace Destination

inductive Kind
  | file
  | tcp
  deriving DecidableEq, Repr

namespace Kind

def name : Kind → String
  | .file => "file"
  | .tcp => "tcp"

def variant : Kind → String
  | .file => "TransportSpec::File"
  | .tcp => "TransportSpec::Tcp"

def field : Kind → String
  | .file => "path"
  | .tcp => "address"

def ofName (s : String) : Except SchemaError Kind :=
  if s = file.name then .ok .file
  else if s = tcp.name then .ok .tcp
  else .error (.unknownTag s [file.name, tcp.name])

def decode : Decoder Kind
  | .text s => ofName s
  | v => wrong v .tag

end Kind

def decodeField : Kind → Decoder Destination
  | .file, v => (Decoder.text .path v).map .file
  | .tcp, v => (Decoder.text .text v).map .tcp

/-- Reads a table with the key `kind`, or an array that begins with the kind. -/
def decode : Decoder Destination
  | .table members =>
    match members.lookup "kind" with
    | none => .error (.missing "kind")
    | some tag => do
      let kind ← Kind.decode tag
      match members.lookup kind.field with
      | some v => decodeField kind v
      | none => .error (.missing kind.field)
  | .array [] => .error (.missing "kind")
  | .array (tag :: rest) => do
    let kind ← Kind.decode tag
    match rest with
    | [] => .error (.tooShort kind.variant)
    | v :: more =>
      let d ← decodeField kind v
      if more.isEmpty then return d else .error (.tooLong rest.length)
  | .date => .error (.missing "kind")
  | v => wrong v (.tagged "TransportSpec")

end Destination

def Config.Decoder.option : Decoder (Option String) := fun v => (Decoder.text .text v).map some

def NodeConfig.decode : Decoder NodeConfig :=
  .record "NodeConfig" ["id"] {} fun c key v =>
    match key with
    | "id" => do return { c with id := ← Decoder.text .text v }
    | _ => .ok c

def HttpConfig.decode : Decoder HttpConfig :=
  .record "HttpConfig" ["host", "port", "ask_timeout"] {} fun c key v =>
    match key with
    | "host" => do return { c with host := ← Decoder.text .text v }
    | "port" => do return { c with port := ← Decoder.port v }
    | "ask_timeout" => do return { c with askTimeout := ← Decoder.option v }
    | _ => .ok c

def SignalConfig.decode : Decoder SignalConfig :=
  .record "SignalConfig" ["provider", "transport", "include_liveness"] {} fun c key v =>
    match key with
    | "provider" => do return { c with provider := ← Decoder.option v }
    | "transport" => do return { c with destination := some (← Destination.decode v) }
    | "include_liveness" => do return { c with includeLiveness := ← Decoder.bool v }
    | _ => .ok c

def PersistenceConfig.decode : Decoder PersistenceConfig :=
  .record "PersistenceConfig" ["path", "persistence_id", "timeout", "interval"] {} fun c key v =>
    match key with
    | "path" => do return { c with path := ← Decoder.text .path v }
    | "persistence_id" => do return { c with id := ← Decoder.option v }
    | "timeout" => do return { c with timeout := ← Decoder.option v }
    | "interval" => do return { c with interval := ← Decoder.option v }
    | _ => .ok c

def ClusterConfig.decode : Decoder ClusterConfig :=
  .record "ClusterConfig" ["isolation_debounce"] {} fun c key v =>
    match key with
    | "isolation_debounce" => do return { c with isolationDebounce := ← Decoder.option v }
    | _ => .ok c

def TransportConfig.decode : Decoder TransportConfig :=
  .record "TransportConfig" ["deadline", "restart_backoff"] {} fun c key v =>
    match key with
    | "deadline" => do return { c with deadline := ← Decoder.option v }
    | "restart_backoff" => do return { c with restartBackoff := ← Decoder.option v }
    | _ => .ok c

namespace Config

def decodeSection (c : Config) (key : String) (v : Toml.Value) : Except SchemaError Config :=
  match key with
  | "node" => do return { c with node := ← NodeConfig.decode v }
  | "http" => do return { c with http := ← HttpConfig.decode v }
  | "liveness" => do return { c with liveness := ← SignalConfig.decode v }
  | "readiness" => do return { c with readiness := ← SignalConfig.decode v }
  | "persistence" => do return { c with persistence := ← PersistenceConfig.decode v }
  | "cluster" => do return { c with cluster := ← ClusterConfig.decode v }
  | "transport" => do return { c with transport := ← TransportConfig.decode v }
  | _ => .ok c

def ofTable (members : Toml.Table) : Except SchemaError Config :=
  Decoder.fill decodeSection {} members

inductive LoadError
  | io (error : IoError)
  | notToml (error : Toml.SyntaxError)
  | schema (error : SchemaError)
  deriving DecidableEq, Repr

def ofText (s : String) : Except LoadError Config := do
  let members ← (Toml.parse s).mapError .notToml
  (ofTable members).mapError .schema

def ofBytes (bytes : ByteArray) : Except LoadError Config :=
  match String.fromUTF8? bytes with
  | some s => ofText s
  | none => .error (.io .invalidText)

/-- Reads a file, given what it holds. Where no file is, the defaults apply. -/
def load : Option ByteArray → Except LoadError Config
  | some bytes => ofBytes bytes
  | none => .ok {}

end Config

/-! ### Writing -/

def Config.optional (key : String) : Option String → Plain.Members
  | some s => [(key, .text s)]
  | none => []

def Destination.toMembers : Destination → Plain.Members
  | .file path => [("kind", .text "file"), ("path", .text path)]
  | .tcp address => [("kind", .text "tcp"), ("address", .text address)]

def NodeConfig.toMembers (c : NodeConfig) : Plain.Members := [("id", .text c.id)]

def HttpConfig.toMembers (c : HttpConfig) : Plain.Members :=
  [("host", .text c.host), ("port", .number c.port.toNat)] ++ optional "ask_timeout" c.askTimeout

def SignalConfig.toMembers (c : SignalConfig) : Plain.Members :=
  optional "provider" c.provider ++
    (match c.destination with
      | some d => [("transport", .table d.toMembers)]
      | none => []) ++
    [("include_liveness", .bool c.includeLiveness)]

def PersistenceConfig.toMembers (c : PersistenceConfig) : Plain.Members :=
  [("path", .text c.path)] ++ optional "persistence_id" c.id ++ optional "timeout" c.timeout ++
    optional "interval" c.interval

def ClusterConfig.toMembers (c : ClusterConfig) : Plain.Members :=
  optional "isolation_debounce" c.isolationDebounce

def TransportConfig.toMembers (c : TransportConfig) : Plain.Members :=
  optional "deadline" c.deadline ++ optional "restart_backoff" c.restartBackoff

namespace Config

def toMembers (c : Config) : Plain.Members :=
  [("node", .table c.node.toMembers), ("http", .table c.http.toMembers),
    ("liveness", .table c.liveness.toMembers), ("readiness", .table c.readiness.toMembers),
    ("persistence", .table c.persistence.toMembers), ("cluster", .table c.cluster.toMembers),
    ("transport", .table c.transport.toMembers)]

def text (c : Config) : String := Plain.render c.toMembers

end Config
end HealthSignal
