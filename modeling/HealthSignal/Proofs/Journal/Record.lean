import HealthSignal.Proofs.Json.Written
import HealthSignal.Journal.Record

/-! Stored records read back, whatever their texts. -/
namespace HealthSignal

namespace Json
open Text (digits)

@[simp] theorem text?_value (s : String) : (Scalar.text s).value.text? = some s := by
  simp [Scalar.value, Value.text?]

theorem word?_value {n : Nat} (h : n < UInt64.size) : (Scalar.word n).value.word? = some n := by
  simp [Scalar.value, Value.word?, Text.digitsValue_digits, h]

end Json

structure Record.Fits (r : Record) : Prop where
  seq : r.seq < UInt64.size
  stamp : r.stamp < UInt64.size

theorem Record.ofJson?_toJson (kind : RecordKind) {r : Record} (h : r.Fits) :
    Record.ofJson? kind (r.toJson kind) = some r := by
  rw [Record.ofJson?, Record.toJson, Json.parse?_writeObject (by simp)]
  cases kind <;>
    simp [Json.Document.record?, Json.field?, RecordKind.stampField, Json.word?_value h.seq,
      Json.word?_value h.stamp]

end HealthSignal
