/-!
Health statuses. A liveness signal that is down asks for a restart, a readiness signal that is
down asks for no traffic; both carry a `Status`.
-/
namespace HealthSignal

inductive Signal
  | liveness
  | readiness
  deriving DecidableEq, Repr

def Signal.name : Signal → String
  | .liveness => "liveness"
  | .readiness => "readiness"

structure Status where
  up : Bool
  message : String
  deriving DecidableEq, Repr

namespace Status

def good (message : String) : Status := ⟨true, message⟩

def bad (message : String) : Status := ⟨false, message⟩

def text (s : Status) : String :=
  (if s.up then "up: " else "down: ") ++ s.message

end Status

inductive Decision
  | go (message : String)
  | stop (message : String)
  deriving DecidableEq, Repr

def Status.decision (s : Status) : Decision :=
  if s.up then .go s.message else .stop s.message

def Decision.isGo : Decision → Bool
  | .go _ => true
  | .stop _ => false

end HealthSignal
