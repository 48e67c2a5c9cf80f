import HealthSignal.Status
import HealthSignal.Json.Document
import HealthSignal.Json.Writer

/-!
Statuses and signals as JSON.
-/
namespace HealthSignal

def Status.toJson (s : Status) : String :=
  Json.writeObject [("up", .bool s.up), ("message", .text s.message)]

def Status.ofJson? (s : String) : Option Status := do
  match ← (← Json.Document.parse? s).record? ["up", "message"] with
  | [up, message] => return ⟨← up.bool?, ← message.text?⟩
  | _ => none

def Signal.ofName? (name : String) : Option Signal :=
  [Signal.liveness, .readiness].find? (·.name == name)

def Signal.toJson (s : Signal) : String := String.ofList (Json.quote s.name)

/-- A signal is its name, or an object with the name as its one key and `null` under it. -/
def Signal.ofJson? (s : String) : Option Signal := do
  match ← Json.Document.parse? s with
  | .value v => Signal.ofName? (← v.text?)
  | .object [(some name, .null)] => Signal.ofName? (String.ofList name)
  | _ => none

end HealthSignal
