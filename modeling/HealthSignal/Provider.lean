import HealthSignal.Config.Error
import HealthSignal.Text.Blank

/-!
The kinds of probe a configuration can name, and which signal may use which.
-/
namespace HealthSignal

inductive Provider
  | default
  | cluster
  | persistence
  deriving DecidableEq, Repr

namespace Provider

def name : Provider → String
  | .default => "default"
  | .cluster => "cluster"
  | .persistence => "persistence"

def defaultFor : Signal → Provider
  | .liveness => .persistence
  | .readiness => .cluster

/-- Reads a name; blanks around it and the case of ASCII letters do not matter. -/
def ofName? (value : String) : Option Provider :=
  let word := String.ofList ((Text.trim value.toList).map Char.toLower)
  [Provider.default, .cluster, .persistence].find? (·.name == word)

/-- The provider that `value` names for `signal`; journal round trips serve liveness only. -/
def resolve (signal : Signal) (value : String) : Except ConfigError Provider :=
  match ofName? value, signal with
  | none, _ => .error (.unknownProvider signal value)
  | some .persistence, .readiness => .error (.unsupportedProvider signal Provider.persistence.name)
  | some provider, _ => .ok provider

end Provider
end HealthSignal
