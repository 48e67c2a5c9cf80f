import HealthSignal.Text.Utf8
import HealthSignal.Text.Decimal

/-!
Record keys and the ordered tables they index. A key is the id, a colon and twenty digits, so the
records of an id lie together, in order of their sequence numbers.
-/
namespace HealthSignal

def recordKey (id : String) (seq : Nat) : String :=
  id ++ ":" ++ String.ofList (Text.padded 20 seq)

structure KeyRange where
  first : String
  stop : String
  deriving DecidableEq, Repr

namespace KeyRange

def contains (r : KeyRange) (key : String) : Bool :=
  !Text.precedes key r.first && Text.precedes key r.stop

/-- All keys of an id: the semicolon directly follows the colon. -/
def ofId (id : String) : KeyRange := ⟨id ++ ":", id ++ ";"⟩

def below (id : String) (seq : Nat) : KeyRange := ⟨recordKey id 0, recordKey id seq⟩

end KeyRange

abbrev Table := List (String × String)

namespace Table

def insert (key text : String) : Table → Table
  | [] => [(key, text)]
  | (k, t) :: rest =>
    if Text.precedes k key then (k, t) :: insert key text rest
    else if Text.precedes key k then (key, text) :: (k, t) :: rest
    else (key, text) :: rest

def inRange (r : KeyRange) (t : Table) : Table := t.filter (r.contains ·.1)

def removeRange (r : KeyRange) (t : Table) : Table := t.filter (!r.contains ·.1)

end Table
end HealthSignal
