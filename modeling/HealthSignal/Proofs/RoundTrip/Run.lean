import HealthSignal.Proofs.Probe.Mail
import HealthSignal.Proofs.RoundTrip.Event
import HealthSignal.Proofs.Timeline

/-! Timed runs of a persistence probe. Mail, changes of its journal from outside and its end may come at
any moment between its own acts. -/
namespace HealthSignal.RoundTrip.Session

def acted : Session → List Nat → Session
  | s, [] => s
  | s, t :: ts => acted (s.act t).1 ts

theorem acted_concat (s : Session) (ts : List Nat) (t : Nat) : s.acted (ts ++ [t]) = ((s.acted ts).act t).1 := by
  induction ts generalizing s with
  | nil => rfl
  | cons t' ts ih => exact ih (s.act t').1

def actsAt (now : Nat) : Session → List Nat → Bool
  | _, [] => true
  | s, t :: ts => decide (now ≤ t) && decide (s.due = some t) && actsAt t (s.act t).1 ts

end HealthSignal.RoundTrip.Session

namespace HealthSignal.Probe
open RoundTrip Timeline

variable {Change : Journal → Journal → Prop} {feed : Feed} {p q p₀ : Probe} {s : Session}
  {start now : Nat}

inductive Stirs (Change : Journal → Journal → Prop) (p : Probe) : Probe → Prop
  | mail {q : Probe} (m : Mail) : p.command m.deliver = .ok q → Stirs Change p q
  | journal {s : Session} {j : Journal} : p.source = .persistence s → Change s.journal j →
    Stirs Change p { p with source := .persistence { s with journal := j } }
  | stop : Stirs Change p p.stop

abbrev Leads (Change : Journal → Journal → Prop) (feed : Feed) : Nat → Probe → Nat → Probe → Prop :=
  Reaches (due feed) (act feed) (Stirs Change)

theorem source_persistence (settings : Settings) (journal : Journal) (faults : Faults) (now : Nat) :
    (persistence settings journal faults now).source =
      .persistence (Session.start settings journal faults now).1 :=
  source_follow _ _

theorem hub_persistence (settings : Settings) (journal : Journal) (faults : Faults) (now : Nat) :
    (persistence settings journal faults now).hub =
      (Hub.new warmingUp).follow ((Machine.new settings).dispatch now).2 :=
  hub_follow _ _

theorem due_persistence (h : p.source = .persistence s) (feed : Feed) :
    p.due feed = if p.running then s.due else none := by
  unfold due
  rw [h]
  cases p.running <;> rfl

theorem act_persistence (h : p.source = .persistence s) (feed : Feed) (now : Nat) :
    p.act feed now = follow { p with source := .persistence (s.act now).1 } (s.act now).2 := by
  unfold act
  rw [h]

theorem source_act (h : p.source = .persistence s) (feed : Feed) (now : Nat) :
    (p.act feed now).source = .persistence (s.act now).1 := by
  rw [act_persistence h, source_follow]

theorem running_act (h : p.source = .persistence s) (feed : Feed) (now : Nat) :
    (p.act feed now).running = p.running := by
  rw [act_persistence h, running_follow]

theorem Stirs.running (h : Stirs Change p q) (hp : p.running = false) : q.running = false := by
  cases h with
  | mail m hm => simp [command, hp] at hm
  | journal => exact hp
  | stop => rfl

theorem Stirs.source (h : Stirs Change p q) (hp : p.source = .persistence s) :
    q.source = .persistence s ∨ q.running = false ∧ q.source = .persistence s.stop ∨
      ∃ j, Change s.journal j ∧ q.source = .persistence { s with journal := j } := by
  cases h with
  | mail m hm =>
    obtain ⟨-, rfl⟩ := command_eq_ok hm
    exact Or.inl hp
  | journal hs hj =>
    obtain rfl : s = _ := by simpa using hp.symm.trans hs
    exact Or.inr (Or.inr ⟨_, hj, rfl⟩)
  | stop => exact Or.inr (Or.inl ⟨rfl, by simp [Probe.stop, hp]⟩)

/-- What each step of a session preserves holds of every session that a run leads to. -/
theorem reaches_session {P : Session → Prop} (hact : ∀ s t, P s → P (s.act t).1)
    (hchange : ∀ s j, Change s.journal j → P s → P { s with journal := j })
    (hstop : ∀ s, P s → P s.stop) (h₀ : ∃ s, p₀.source = .persistence s ∧ P s)
    (h : Leads Change feed start p₀ now p) :
    ∃ s, p.source = .persistence s ∧ P s := by
  induction h with
  | refl => exact h₀
  | act _ _ ih =>
    obtain ⟨s, hs, hP⟩ := ih
    exact ⟨_, source_act hs feed _, hact s _ hP⟩
  | pass _ _ _ ih => exact ih
  | move _ hm ih =>
    obtain ⟨s, hs, hP⟩ := ih
    obtain hq | ⟨-, hq⟩ | ⟨j, hj, hq⟩ := hm.source hs
    · exact ⟨s, hq, hP⟩
    · exact ⟨_, hq, hstop s hP⟩
    · exact ⟨_, hq, hchange s j hj hP⟩

/-- A run in which the surroundings do nothing. -/
theorem leads_acted {ts : List Nat} {later : Nat} (hp : p.source = .persistence s) (hr : p.running = true)
    (h : s.actsAt now ts = true) (hl : ts.getLast?.getD now = later) :
    ∃ q, Leads Change feed now p later q ∧ q.source = .persistence (s.acted ts) ∧ q.running = true := by
  induction ts generalizing now p s with
  | nil => exact ⟨p, hl ▸ .refl, hp, hr⟩
  | cons t ts ih =>
    simp only [Session.actsAt, Bool.and_eq_true, decide_eq_true_eq] at h
    obtain ⟨⟨hle, hd⟩, hrest⟩ := h
    have hdue : p.due feed = some t := by rw [due_persistence hp, hr, hd]; rfl
    have hstep : Leads Change feed now p (max t now) (p.act feed (max t now)) := Reaches.refl.act hdue
    rw [Nat.max_eq_left hle] at hstep
    have hl' : ts.getLast?.getD t = later := by
      rw [← hl, List.getLast?_cons]
      rfl
    obtain ⟨q, hq, hsource⟩ := ih (source_act hp feed t) ((running_act hp feed t).trans hr) hrest hl'
    exact ⟨q, hstep.trans hq, hsource⟩

end HealthSignal.Probe
