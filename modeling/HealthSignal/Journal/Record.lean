import HealthSignal.Json.Document
import HealthSignal.Json.Writer

/-!
Journal records and their stored form: JSON objects whose last field is the time of writing.
-/
namespace HealthSignal

structure Record where
  id : String
  seq : Nat
  payload : String
  stamp : Nat
  deriving DecidableEq, Repr

inductive RecordKind
  | entry
  | snapshot
  deriving DecidableEq, Repr

def RecordKind.stampField : RecordKind → String
  | .entry => "written_at"
  | .snapshot => "saved_at"

namespace Record

def toJson (kind : RecordKind) (r : Record) : String :=
  Json.writeObject [("persistence_id", .text r.id), ("seq", .word r.seq),
    ("payload", .text r.payload), (kind.stampField, .word r.stamp)]

def ofJson? (kind : RecordKind) (s : String) : Option Record := do
  match ← (← Json.Document.parse? s).record?
      ["persistence_id", "seq", "payload", kind.stampField] with
  | [id, seq, payload, stamp] =>
    return ⟨← id.text?, ← seq.word?, ← payload.text?, ← stamp.word?⟩
  | _ => none

end Record
end HealthSignal
