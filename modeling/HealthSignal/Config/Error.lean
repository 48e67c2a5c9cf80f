import HealthSignal.Duration
import HealthSignal.Status

/-!
Configured texts that have no meaning.
-/
namespace HealthSignal

inductive ConfigError
  | unknownProvider (signal : Signal) (value : String)
  | unsupportedProvider (signal : Signal) (provider : String)
  | duration (text : String)
  deriving DecidableEq, Repr

def ConfigError.message : ConfigError → String
  | .unknownProvider signal value =>
    "unknown " ++ signal.name ++ " provider '" ++ value ++
      "', expected one of default, cluster, persistence"
  | .unsupportedProvider signal provider =>
    "the " ++ provider ++ " provider does not support " ++ signal.name
  | .duration text => "invalid duration '" ++ text ++ "'"

def Duration.read (text : String) : Except ConfigError Duration :=
  match Duration.parse? text with
  | some d => .ok d
  | none => .error (.duration text)

def Duration.readOr (default : Duration) : Option String → Except ConfigError Duration
  | some text => Duration.read text
  | none => .ok default

end HealthSignal
