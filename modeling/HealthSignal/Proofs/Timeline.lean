import HealthSignal.Timeline

/-! Timed runs of a system whose surroundings move it between its own actions. Time never passes a
moment that falls due. -/
namespace HealthSignal.Timeline

variable {σ : Type} {due : σ → Option Nat} {act : σ → Nat → σ} {Move : σ → σ → Prop}
  {start now later : Nat} {s₀ s s' : σ}

inductive Reaches (due : σ → Option Nat) (act : σ → Nat → σ) (Move : σ → σ → Prop)
    (start : Nat) (s₀ : σ) : Nat → σ → Prop
  | refl : Reaches due act Move start s₀ start s₀
  | act {now d : Nat} {s : σ} : Reaches due act Move start s₀ now s → due s = some d →
    Reaches due act Move start s₀ (max d now) (act s (max d now))
  | pass {now later : Nat} {s : σ} : Reaches due act Move start s₀ now s → now ≤ later →
    (∀ d, due s = some d → later ≤ max d now) → Reaches due act Move start s₀ later s
  | move {now : Nat} {s s' : σ} : Reaches due act Move start s₀ now s → Move s s' →
    Reaches due act Move start s₀ now s'

theorem Reaches.trans (h : Reaches due act Move start s₀ now s)
    (h' : Reaches due act Move now s later s') : Reaches due act Move start s₀ later s' := by
  induction h' with
  | refl => exact h
  | act _ hd ih => exact ih.act hd
  | pass _ hle hd ih => exact ih.pass hle hd
  | move _ hm ih => exact ih.move hm

/-- Running a system is one of its runs. -/
theorem reaches_run (horizon fuel now : Nat) (s : σ) :
    ∃ later, Reaches due act Move now s later (run due act horizon fuel now s) := by
  induction fuel generalizing now s with
  | zero => exact ⟨now, .refl⟩
  | succ fuel ih =>
    unfold run
    split
    · next d hd =>
      split
      · obtain ⟨later, h⟩ := ih (max d now) (act s (max d now))
        exact ⟨later, (Reaches.refl.act hd).trans h⟩
      · exact ⟨now, .refl⟩
    · exact ⟨now, .refl⟩

end HealthSignal.Timeline
