/-!
Virtual time. A system says when it next has to act; time moves from one such moment to the next.
-/
namespace HealthSignal.Timeline

variable {σ : Type}

/-- Acts at every moment that falls due from `now` to `horizon`, at most `fuel` times. A moment before
`now` counts as `now`. -/
def run (due : σ → Option Nat) (act : σ → Nat → σ) (horizon : Nat) :
    (fuel : Nat) → (now : Nat) → σ → σ
  | 0, _, s => s
  | fuel + 1, now, s =>
    match due s with
    | some t => if t ≤ horizon then run due act horizon fuel (max t now) (act s (max t now)) else s
    | none => s

def Settled (due : σ → Option Nat) (now : Nat) (s : σ) : Prop := ∀ t, due s = some t → now < t

/-- Enough steps for a span in which each millisecond brings at most `rate` of them, plus a backlog. -/
def steps (rate backlog now horizon : Nat) : Nat := rate * (horizon - now + 2) + backlog

end HealthSignal.Timeline
