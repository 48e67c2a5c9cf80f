import HealthSignal.Status
import HealthSignal.Text.Utf8

/-!
The conjunction of several probes. A call on the external signal is decided on when the conjunction
changes; at first it counts as neither up nor down.
-/
namespace HealthSignal

inductive Slot
  | pending
  | reported (status : Status)
  | terminated
  deriving DecidableEq, Repr

namespace Slot

def isUp : Slot → Bool
  | .reported s => s.up
  | _ => false

def reason : Slot → String
  | .pending => "waiting for first status"
  | .terminated => "probe terminated"
  | .reported s => s.message

end Slot

structure Aggregate where
  /-- One slot for each key, in byte order of the keys. -/
  slots : List (String × Slot)
  /-- What the last decision said. -/
  shown : Option Bool
  deriving DecidableEq, Repr

namespace Aggregate

def insertKey (key : String) : List (String × Slot) → List (String × Slot)
  | [] => [(key, .pending)]
  | (k, s) :: rest =>
    if k = key then (k, s) :: rest
    else if Text.precedes key k then (key, .pending) :: (k, s) :: rest
    else (k, s) :: insertKey key rest

def new (keys : List String) : Aggregate :=
  ⟨keys.foldl (fun slots key => insertKey key slots) [], none⟩

def isUp (a : Aggregate) : Bool := !a.slots.isEmpty && a.slots.all (·.2.isUp)

def allTerminated (a : Aggregate) : Bool := a.slots.all (·.2 == .terminated)

def slot? (a : Aggregate) (key : String) : Option Slot := a.slots.lookup key

def setSlot (a : Aggregate) (key : String) (slot : Slot) : Aggregate :=
  { a with slots := a.slots.map fun (k, s) => if k = key then (k, slot) else (k, s) }

def line (entry : String × String) : String := entry.1 ++ ": " ++ entry.2

def describeUp (a : Aggregate) : String :=
  String.intercalate "; " (a.slots.map fun (key, slot) => line (key, slot.reason))

def describeDown (a : Aggregate) : String :=
  match a.slots.find? (!·.2.isUp) with
  | some (key, slot) => line (key, slot.reason)
  | none => "no probes registered"

def decide (a : Aggregate) : Aggregate × Option Decision :=
  if a.shown = some a.isUp then (a, none)
  else ({ a with shown := some a.isUp },
    some (if a.isUp then .go a.describeUp else .stop a.describeDown))

/-- Notes a status; reports of unknown and of terminated keys change nothing. -/
def report (a : Aggregate) (key : String) (s : Status) : Aggregate × Option Decision :=
  match a.slot? key with
  | none | some .terminated => (a, none)
  | some _ => (a.setSlot key (.reported s)).decide

def terminate (a : Aggregate) (key : String) : Aggregate × Option Decision :=
  match a.slot? key with
  | none => (a, none)
  | some _ => (a.setSlot key .terminated).decide

end Aggregate
end HealthSignal
