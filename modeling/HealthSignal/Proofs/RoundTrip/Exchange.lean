import HealthSignal.Proofs.RoundTrip.Loss

/-! What a round trip knows. Its worker comes to each call by the answers to the calls before, and what it reports
follows from them. -/
namespace HealthSignal.RoundTrip

def Moment.Answers (x : Moment) (c : Call) (a : Except JournalError c.Answer) : Prop :=
  ∃ w d answers, x.machine.phase = .awaiting w d ∧ x.event = .answer answers ∧ w.call = c ∧ answers c = a

def Heard (history : List Moment) (n : Nat) (c : Call) (a : Except JournalError c.Answer) : Prop :=
  ∃ y ∈ history, y.attempt = n ∧ y.Answers c a

namespace Worker
variable {w : Worker} {answers : Machine.Answers} {r : Report} {next : Option Stage} {stage : Stage} {seq : Nat}

theorem recoverSnapshot_lost {expect : Option Nat} {answer : Except JournalError (Option Nat)} :
    recoverSnapshot expect answer = .error (.lost seq) ↔
      expect = some seq ∧ ∃ found, answer = .ok found ∧ ∀ n, found = some n → n < seq := by
  cases answer with
  | error e => simp [recoverSnapshot]
  | ok found =>
    cases expect with
    | none => simp [recoverSnapshot]
    | some expected =>
      simp only [recoverSnapshot, Except.ok.injEq, Option.some.injEq, exists_eq_left']
      cases found with
      | none => simp
      | some n => simp; grind

end Worker

namespace Stage

def Backed (history : List Moment) (n : Nat) (expect : Expectation) : Stage → Prop
  | .loading => True
  | .replaying recovered => ∃ a, Heard history n .load a ∧ recovered = Worker.recoverSnapshot expect.snapshot a
  | .appending recovered seq =>
    (∃ a, Heard history n .load a ∧ recovered = Worker.recoverSnapshot expect.snapshot a) ∧
      ∃ seqs : List Nat, Heard history n .replay (.ok seqs) ∧ (∀ s, expect.journal = some s → s ∈ seqs) ∧
        seq = Worker.nextSeq (seqs.getLast?.getD 0) recovered
  | .saving seq =>
    (∃ a k, Heard history n .load a ∧ Worker.recoverSnapshot expect.snapshot a = .ok k) ∧
      ∃ payload, Heard history n (.append seq payload) (.ok ())
  | .pruning seq => 1 < n ∧ ∃ payload, Heard history n (.save seq payload) (.ok ())

def Recalls (recovered : Except Failure Nat) : Stage → Prop
  | .loading => False
  | .replaying r | .appending r _ => r = recovered
  | .saving _ | .pruning _ => ∃ k, recovered = .ok k

end Stage

section Heard
variable {history : List Moment} {m : Machine} {w : Worker} {answers : Machine.Answers} {c : Call}
  {a : Except JournalError c.Answer} {n d : Nat}

theorem heard_cons {x : Moment} :
    Heard (x :: history) n c a ↔ x.attempt = n ∧ x.Answers c a ∨ Heard history n c a := by
  simp [Heard]

theorem Heard.cons (h : Heard history n c a) (x : Moment) : Heard (x :: history) n c a :=
  heard_cons.mpr (Or.inr h)

theorem answers_iff (hp : m.phase = .awaiting w d) {now : Nat} :
    Moment.Answers ⟨now, m, .answer answers⟩ c a ↔ w.call = c ∧ answers c = a := by
  constructor
  · rintro ⟨w', d', answers', hp', ⟨⟩, hc, ha⟩
    obtain ⟨rfl, -⟩ := Phase.awaiting.inj (hp.symm.trans hp')
    exact ⟨hc, ha⟩
  · rintro ⟨hc, ha⟩
    exact ⟨w, d, answers, hp, rfl, hc, ha⟩

theorem Stage.Backed.cons {expect : Expectation} {stage : Stage} (h : stage.Backed history n expect)
    (x : Moment) : stage.Backed (x :: history) n expect := by
  cases stage with
  | loading => trivial
  | replaying recovered =>
    obtain ⟨a, ha, heq⟩ := h
    exact ⟨a, ha.cons x, heq⟩
  | appending recovered seq =>
    obtain ⟨⟨a, ha, heq⟩, seqs, hs, hrest⟩ := h
    exact ⟨⟨a, ha.cons x, heq⟩, seqs, hs.cons x, hrest⟩
  | saving seq =>
    obtain ⟨⟨a, k, ha, heq⟩, payload, hp⟩ := h
    exact ⟨⟨a, k, ha.cons x, heq⟩, payload, hp.cons x⟩
  | pruning seq =>
    obtain ⟨hn, payload, hp⟩ := h
    exact ⟨hn, payload, hp.cons x⟩

end Heard

structure Backing (history : List Moment) (m : Machine) (w : Worker) : Prop where
  attempt : w.attempt = m.attempt
  backed : w.stage.Backed history m.attempt w.expect
  recalls : ∀ a, Heard history m.attempt .load a → w.stage.Recalls (Worker.recoverSnapshot w.expect.snapshot a)

section Backing
variable {history : List Moment} {m : Machine} {w : Worker} {answers : Machine.Answers} {d now : Nat}

theorem Backing.ask {stage : Stage} (h : Backing history m w) (hp : m.phase = .awaiting w d)
    (hr : w.resume (answers w.call) = .ask stage) :
    Backing (⟨now, m, .answer answers⟩ :: history) { m with phase := .awaiting { w with stage := stage } d }
      { w with stage := stage } := by
  have hattempt : Moment.attempt ⟨now, m, .answer answers⟩ = m.attempt :=
    (m.handle_turn now (.answer answers)).attempt_eq (by simp)
  have hnew : ∀ {c : Call} {a : Except JournalError c.Answer}, w.call = c → answers c = a →
      Heard (⟨now, m, .answer answers⟩ :: history) m.attempt c a := fun hc ha =>
    heard_cons.mpr (Or.inl ⟨hattempt, (answers_iff hp).mpr ⟨hc, ha⟩⟩)
  -- A load is answered now, or it was before.
  have hload : ∀ {a}, Heard (⟨now, m, .answer answers⟩ :: history) m.attempt .load a →
      w.call = .load ∧ answers .load = a ∨
        w.stage.Recalls (Worker.recoverSnapshot w.expect.snapshot a) := fun ha => by
    obtain ⟨-, hx⟩ | ha := heard_cons.mp ha
    · exact Or.inl ((answers_iff hp).mp hx)
    · exact Or.inr (h.recalls _ ha)
  have hbacked := h.backed.cons ⟨now, m, .answer answers⟩
  have hsteps := w.resume_steps answers
  rw [hr] at hsteps
  cases hsteps with
  | loaded hs =>
    refine ⟨h.attempt, ⟨_, hnew (by rw [Worker.call, hs, Worker.callOf]) rfl, rfl⟩, fun a ha => ?_⟩
    obtain ⟨-, rfl⟩ | hrecalls := hload ha
    · rfl
    · rw [hs] at hrecalls
      exact hrecalls.elim
  | @replayed recovered seqs hs hseqs hall =>
    rw [hs] at hbacked
    refine ⟨h.attempt, ⟨hbacked, seqs, hnew (by rw [Worker.call, hs, Worker.callOf]) hseqs, hall, rfl⟩,
      fun a ha => ?_⟩
    obtain ⟨hc, -⟩ | hrecalls := hload ha
    · simp [Worker.call, hs, Worker.callOf] at hc
    · rw [hs] at hrecalls
      exact hrecalls
  | @appended n seq hs hok =>
    rw [hs] at hbacked
    obtain ⟨⟨a₀, ha₀, heq⟩, -⟩ := hbacked
    refine ⟨h.attempt, ⟨⟨a₀, n, ha₀, heq.symm⟩, w.marker,
      hnew (by rw [Worker.call, hs, Worker.callOf]) hok⟩, fun a ha => ?_⟩
    obtain ⟨hc, -⟩ | hrecalls := hload ha
    · simp [Worker.call, hs, Worker.callOf] at hc
    · rw [hs] at hrecalls
      exact ⟨n, hrecalls.symm⟩

theorem Backing.drain {r : Report} {stage : Stage} (h : Backing history m w) (hp : m.phase = .awaiting w d)
    (hr : w.resume (answers w.call) = .report r (some stage)) (deadline : Nat) :
    Backing (⟨now, m, .answer answers⟩ :: history)
      { (m.evaluate r).1 with phase := .draining { w with stage := stage } deadline } { w with stage := stage } := by
  have hattempt : Moment.attempt ⟨now, m, .answer answers⟩ = m.attempt :=
    (m.handle_turn now (.answer answers)).attempt_eq (by simp)
  have hsteps := w.resume_steps answers
  rw [hr] at hsteps
  generalize hnext : some stage = next at hsteps
  cases hsteps with
  | @saved seq hs hok =>
    have hcall : w.call = .save seq w.marker := by rw [Worker.call, hs, Worker.callOf]
    split at hnext
    · next hlt =>
      obtain rfl := Option.some.inj hnext
      refine ⟨h.attempt, ⟨h.attempt ▸ hlt, w.marker,
        heard_cons.mpr (Or.inl ⟨hattempt, (answers_iff hp).mpr ⟨hcall, hok⟩⟩)⟩, fun a ha => ?_⟩
      obtain ⟨-, hx⟩ | ha := heard_cons.mp ha
      · cases hcall.symm.trans ((answers_iff hp).mp hx).1
      · have hrecalls := h.recalls a ha
        rwa [hs] at hrecalls
    · cases hnext
  | _ => cases hnext

theorem Backing.handle (h : ∀ w, m.worker? = some w → Backing history m w) (hc : Consistent history m) (now : Nat)
    (e : Event) : ∀ w, (m.handle now e).1.worker? = some w → Backing (⟨now, m, e⟩ :: history) (m.handle now e).1 w := by
  have hturn := m.handle_turn now e
  generalize (m.handle now e).1 = m', m.finding? e = f at hturn
  cases hturn with
  | @ask w d answers stage hp hr =>
    intro w' hw
    obtain rfl := Option.some.inj hw
    exact (h w (by rw [Machine.worker?, hp])).ask hp hr
  | @reportAndDrain w d answers r stage hp hr =>
    intro w' hw
    obtain rfl := Option.some.inj hw
    exact (h w (by rw [Machine.worker?, hp])).drain hp hr _
  | @begin t hp _ =>
    intro w hw
    obtain rfl := Option.some.inj hw
    refine ⟨rfl, trivial, fun a ha => ?_⟩
    obtain ⟨-, w, d, -, hp', -⟩ | ⟨y, hy, hya, -⟩ := heard_cons.mp ha
    · cases hp.symm.trans hp'
    · exact absurd (hya ▸ hc.attempt_le y hy) (Nat.not_succ_le_self _)
  | idle hw => exact fun w hw' => by simp [hw] at hw'
  | _ => exact fun w hw => by simp [Machine.worker?, Machine.delay, Machine.stop] at hw

end Backing

theorem Course.backing {settings : Settings} {start now : Nat} {history : List Moment} {m : Machine} {hub : Hub}
    (h : Course settings start now history m hub) : ∀ w, m.worker? = some w → Backing history m w := by
  induction h with
  | start => exact fun w hw => by simp [Machine.waiting, Machine.worker?] at hw
  | pass _ _ _ ih => exact ih
  | mail _ _ ih => exact ih
  | event h _ ih => exact Backing.handle ih h.consistent _ _
  | stop h ih => exact Backing.handle ih h.consistent _ .stop

end HealthSignal.RoundTrip
