import HealthSignal.Proofs.Json.Written
import HealthSignal.Json.Status

/-! Written statuses and signals read back. -/
namespace HealthSignal

/-- A quoted text is a document of its own. -/
theorem Json.parse?_quote (s : String) :
    Document.parse? (String.ofList (quote s)) = some (.value (.text (some s.toList))) := by
  have htokens : tokens (quote s) = some [.text (some s.toList)] := by
    simpa [tokens] using tokens_quote s []
  rw [Document.parse?, String.toList_ofList, htokens]
  rfl

theorem Status.ofJson?_toJson (s : Status) : Status.ofJson? s.toJson = some s := by
  rw [Status.ofJson?, Status.toJson, Json.parse?_writeObject (by simp)]
  simp [Json.Document.record?, Json.field?, Json.Scalar.value, Json.Value.bool?, Json.Value.text?]

theorem Signal.ofJson?_toJson (s : Signal) : Signal.ofJson? s.toJson = some s := by
  rw [Signal.ofJson?, Signal.toJson, Json.parse?_quote]
  cases s <;> simp [Json.Value.text?, Signal.ofName?, Signal.name]

end HealthSignal
