import HealthSignal.Transport.Error

/-!
A signal handed to a consumer as a queue of calls.
-/
namespace HealthSignal

structure Channel where
  /-- Calls not taken yet, oldest first. -/
  queue : List Decision
  consumed : Bool
  deriving DecidableEq, Repr

namespace Channel

def empty : Channel := ⟨[], true⟩

def call (c : Channel) (d : Decision) : Except TransportError Channel :=
  if c.consumed then .ok { c with queue := c.queue ++ [d] } else .error .closed

def take (c : Channel) : Option Decision × Channel :=
  match c.queue with
  | d :: rest => (some d, { c with queue := rest })
  | [] => (none, c)

def close (_ : Channel) : Channel := ⟨[], false⟩

end Channel
end HealthSignal
