import HealthSignal.RoundTrip.Session

/-! What can happen to the machine of a persistence probe, and what each event brings to light. The
status that a step leads to says what was found and nothing else. -/
namespace HealthSignal.RoundTrip

inductive Event
  | answer (answers : Machine.Answers)
  | panic
  | exit
  | timer
  | stop

inductive Finding
  | report (r : Report)
  | timeout
  | crash

def Report.success (seq : Nat) : Report := ⟨some (.ok ()), some (.ok ()), some seq, some seq⟩

namespace Worker
variable {w : Worker} {answers : Machine.Answers}

inductive Steps (w : Worker) (answers : Machine.Answers) : Progress → Prop
  | loaded : w.stage = .loading →
    Steps w answers (.ask (.replaying (recoverSnapshot w.expect.snapshot (answers .load))))
  | replayed {recovered : Except Failure Nat} {seqs : List Nat} : w.stage = .replaying recovered →
    answers .replay = .ok seqs → (∀ seq, w.expect.journal = some seq → seq ∈ seqs) →
    Steps w answers (.ask (.appending recovered (nextSeq (seqs.getLast?.getD 0) recovered)))
  | missed {recovered : Except Failure Nat} {seqs : List Nat} {seq : Nat} : w.stage = .replaying recovered →
    answers .replay = .ok seqs → w.expect.journal = some seq → seq ∉ seqs →
    Steps w answers (.report ⟨some (.error (.lost seq)), some (outcome recovered), none, none⟩ none)
  | unread {recovered : Except Failure Nat} {e : JournalError} : w.stage = .replaying recovered →
    answers .replay = .error e →
    Steps w answers (.report ⟨some (.error (.store e)), some (outcome recovered), none, none⟩ none)
  | refused {n seq : Nat} {e : JournalError} : w.stage = .appending (.ok n) seq →
    answers (.append seq w.marker) = .error e →
    Steps w answers (.report ⟨some (.error (.store e)), none, none, none⟩ none)
  | refusedToo {f : Failure} {seq : Nat} {e : JournalError} : w.stage = .appending (.error f) seq →
    answers (.append seq w.marker) = .error e →
    Steps w answers (.report ⟨some (.error (.store e)), some (.error f), none, none⟩ none)
  | appended {n seq : Nat} : w.stage = .appending (.ok n) seq → answers (.append seq w.marker) = .ok () →
    Steps w answers (.ask (.saving seq))
  | appendedOnly {f : Failure} {seq : Nat} : w.stage = .appending (.error f) seq →
    answers (.append seq w.marker) = .ok () →
    Steps w answers (.report ⟨some (.ok ()), some (.error f), some seq, none⟩ none)
  | unsaved {seq : Nat} {e : JournalError} : w.stage = .saving seq → answers (.save seq w.marker) = .error e →
    Steps w answers (.report ⟨some (.ok ()), some (.error (.store e)), some seq, none⟩ none)
  | saved {seq : Nat} : w.stage = .saving seq → answers (.save seq w.marker) = .ok () →
    Steps w answers (.report (.success seq) (if w.attempt > 1 then some (.pruning seq) else none))
  | pruned {seq : Nat} : w.stage = .pruning seq → Steps w answers .exit

section Recover
variable {expect : Option Nat} {answer : Except JournalError (List Nat)}

theorem recoverEntries_error {f : Failure} (h : recoverEntries expect answer = .error f) :
    (∃ e, answer = .error e ∧ f = .store e) ∨
      ∃ seqs seq, answer = .ok seqs ∧ expect = some seq ∧ seq ∉ seqs ∧ f = .lost seq := by
  unfold recoverEntries at h
  split at h
  · exact Or.inl ⟨_, rfl, (Except.error.inj h).symm⟩
  · next seqs =>
    split at h
    · next seq hseq =>
      obtain ⟨hexpect, hnot⟩ := Option.filter_eq_some_iff.mp hseq
      exact Or.inr ⟨seqs, seq, rfl, hexpect, by simpa using hnot, (Except.error.inj h).symm⟩
    · cases h

theorem recoverEntries_ok {highest : Nat} (h : recoverEntries expect answer = .ok highest) : ∃ seqs, answer = .ok seqs ∧
    (∀ seq, expect = some seq → seq ∈ seqs) ∧ highest = seqs.getLast?.getD 0 := by
  unfold recoverEntries at h
  split at h
  · cases h
  · next seqs =>
    split at h
    · cases h
    · next hnone =>
      refine ⟨seqs, rfl, fun seq hseq => ?_, (Except.ok.inj h).symm⟩
      simpa [hseq, Option.filter_some] using hnone

end Recover

theorem isOk_call {c : Call} {a : Except JournalError c.Answer} (hc : w.call = c) (ha : answers c = a) :
    (answers w.call).isOk = a.isOk := by
  subst hc
  rw [ha]

theorem resume_steps (w : Worker) (answers : Machine.Answers) : w.Steps answers (w.resume (answers w.call)) := by
  obtain ⟨id, attempt, expect, stage⟩ := w
  cases stage with
  | loading => exact .loaded rfl
  | replaying recovered =>
    simp only [resume, resumeAt]
    split
    · next f hf =>
      obtain ⟨e, ha, rfl⟩ | ⟨seqs, seq, ha, hexpect, hnot, rfl⟩ := recoverEntries_error hf
      · exact .unread rfl ha
      · exact .missed rfl ha hexpect hnot
    · next highest hf =>
      obtain ⟨seqs, ha, hall, rfl⟩ := recoverEntries_ok hf
      exact .replayed rfl ha hall
  | appending recovered seq =>
    show Steps _ _ (resumeAt attempt expect _ (.appending recovered seq) (answers (.append seq _)))
    cases ha : answers (.append seq (marker ⟨id, attempt, expect, .appending recovered seq⟩)) <;> cases recovered
    · exact .refusedToo rfl ha
    · exact .refused rfl ha
    · exact .appendedOnly rfl ha
    · exact .appended rfl ha
  | saving seq =>
    show Steps _ _ (resumeAt attempt expect _ (.saving seq) (answers (.save seq _)))
    cases ha : answers (.save seq (marker ⟨id, attempt, expect, .saving seq⟩))
    · exact .unsaved rfl ha
    · exact .saved rfl ha
  | pruning seq => exact .pruned rfl

end Worker

namespace Machine

def handle (m : Machine) (now : Nat) : Event → Machine × Option Status
  | .answer answers => m.answer now answers
  | .panic => m.panic now
  | .exit => m.exit now
  | .timer => m.elapse now
  | .stop => (m.stop, none)

def meet (m : Machine) (now : Nat) : Option Event → Machine × Option Status
  | some e => m.handle now e
  | none => (m, none)

def busy (m : Machine) : Bool :=
  match m.phase with
  | .awaiting .. | .draining .. | .leaving .. => true
  | .delaying _ | .stopped => false

/-- What an event brings to light. A round trip without any time for it times out as it starts. -/
def finding? (m : Machine) : Event → Option Finding
  | .answer answers =>
    match m.phase with
    | .awaiting w _ =>
      match w.resume (answers w.call) with
      | .report r _ => some (.report r)
      | _ => none
    | _ => none
  | .panic => none
  | .exit =>
    match m.phase with
    | .awaiting .. | .leaving false _ => some .crash
    | _ => none
  | .timer =>
    match m.phase with
    | .awaiting .. => some .timeout
    | .leaving false _ => some .crash
    | .delaying _ => if m.settings.timeout.millis = 0 then some .timeout else none
    | _ => none
  | .stop => none

def shown (m : Machine) : Finding → Status
  | .report r => (m.verdict.update r).status
  | .timeout => timedOut m.settings.timeout
  | .crash => crashed

def begun (m : Machine) (now : Nat) : Machine :=
  { m with
    attempt := m.attempt + 1
    phase := .awaiting (.start m.settings.id (m.attempt + 1) m.expect)
      (now + m.settings.timeout.timer) }

section
variable (m : Machine) (now d : Nat) (told : Bool)

@[simp] theorem phase_delay : (m.delay now).phase = .delaying (now + m.settings.delay.timer) := rfl

@[simp] theorem phase_leave : (m.leave told d).phase = .leaving told d := rfl

@[simp] theorem phase_drain : (m.drain now told).phase = .leaving told (now + m.settings.timeout.timer) := rfl

@[simp] theorem phase_stop : m.stop.phase = .stopped := rfl

@[simp] theorem settings_delay : (m.delay now).settings = m.settings := rfl

@[simp] theorem settings_leave : (m.leave told d).settings = m.settings := rfl

@[simp] theorem settings_drain : (m.drain now told).settings = m.settings := rfl

end

theorem dispatch_zero {m : Machine} (h : m.settings.timeout.millis = 0) (now : Nat) :
    m.dispatch now =
      (drain { m with attempt := m.attempt + 1 } now true, some (timedOut m.settings.timeout)) := by
  simp [dispatch, h, expire]

theorem dispatch_pos {m : Machine} (h : m.settings.timeout.millis ≠ 0) (now : Nat) :
    m.dispatch now = (m.begun now, none) := by
  simp [dispatch, h, begun]

theorem settings_dispatch (m : Machine) (now : Nat) : (m.dispatch now).1.settings = m.settings := by
  unfold dispatch
  simp only
  split <;> rfl

inductive Turn (m : Machine) (now : Nat) : Event → Machine → Option Finding → Prop
  | ask {w : Worker} {d : Nat} {answers : Answers} {stage : Stage} : m.phase = .awaiting w d →
    w.resume (answers w.call) = .ask stage →
    Turn m now (.answer answers) { m with phase := .awaiting { w with stage := stage } d } none
  | reportAndDrain {w : Worker} {d : Nat} {answers : Answers} {r : Report} {stage : Stage} :
    m.phase = .awaiting w d → w.resume (answers w.call) = .report r (some stage) →
    Turn m now (.answer answers)
      { m.evaluate r |>.1 with
        phase := .draining { w with stage := stage } (now + m.settings.timeout.timer) }
      (some (.report r))
  | reportAndLeave {w : Worker} {d : Nat} {answers : Answers} {r : Report} :
    m.phase = .awaiting w d → w.resume (answers w.call) = .report r none →
    Turn m now (.answer answers) ((m.evaluate r).1.drain now true) (some (.report r))
  | quit {w : Worker} {d : Nat} {answers : Answers} : m.phase = .awaiting w d →
    w.resume (answers w.call) = .exit → Turn m now (.answer answers) (m.drain now false) none
  | breakOff {w : Worker} {d : Nat} : m.phase = .awaiting w d →
    Turn m now .panic (m.drain now false) none
  | vanish {w : Worker} {d : Nat} : m.phase = .awaiting w d →
    Turn m now .exit (m.delay now) (some .crash)
  | timeout {w : Worker} {d : Nat} : m.phase = .awaiting w d →
    Turn m now .timer (m.drain now true) (some .timeout)
  | leave {w : Worker} {d : Nat} {e : Event} : m.phase = .draining w d →
    (∃ answers, e = .answer answers) ∨ e = .panic → Turn m now e (m.leave true d) none
  | dismiss {w : Worker} {d : Nat} {e : Event} : m.phase = .draining w d → e = .exit ∨ e = .timer →
    Turn m now e (m.delay now) none
  | gone {d : Nat} {e : Event} : m.phase = .leaving true d → e = .exit ∨ e = .timer →
    Turn m now e (m.delay now) none
  | crash {d : Nat} {e : Event} : m.phase = .leaving false d → e = .exit ∨ e = .timer →
    Turn m now e (m.delay now) (some .crash)
  | begin {t : Nat} : m.phase = .delaying t → m.settings.timeout.millis ≠ 0 →
    Turn m now .timer (m.begun now) none
  | beginInVain {t : Nat} : m.phase = .delaying t → m.settings.timeout.millis = 0 →
    Turn m now .timer (drain { m with attempt := m.attempt + 1 } now true) (some .timeout)
  | stop : Turn m now .stop m.stop none
  | idle {e : Event} : m.worker? = none → e ≠ .stop → (e = .timer → m.timer? = none) →
    (e = .exit → m.busy = false) → Turn m now e m none

theorem handle_eq (m : Machine) (now : Nat) (e : Event) :
    Turn m now e (m.handle now e).1 (m.finding? e) ∧
      (m.handle now e).2 = (m.finding? e).map m.shown := by
  cases hp : m.phase with
  | awaiting w d =>
    cases e with
    | answer answers =>
      simp only [handle, answer, finding?, hp]
      cases hr : w.resume (answers w.call) with
      | ask stage => exact ⟨.ask hp hr, rfl⟩
      | report r next =>
        cases next with
        | none => exact ⟨.reportAndLeave hp hr, rfl⟩
        | some stage => exact ⟨.reportAndDrain hp hr, rfl⟩
      | exit => exact ⟨.quit hp hr, rfl⟩
    | panic =>
      simp only [handle, panic, finding?, hp]
      exact ⟨.breakOff hp, rfl⟩
    | exit =>
      simp only [handle, exit, finding?, hp]
      exact ⟨.vanish hp, rfl⟩
    | timer =>
      simp only [handle, elapse, finding?, hp]
      exact ⟨.timeout hp, rfl⟩
    | stop => exact ⟨.stop, rfl⟩
  | draining w d =>
    cases e with
    | stop => exact ⟨.stop, rfl⟩
    | answer | panic =>
      simp only [handle, answer, panic, finding?, hp]
      exact ⟨.leave hp (by simp), rfl⟩
    | exit | timer =>
      simp only [handle, exit, elapse, finding?, hp]
      exact ⟨.dismiss hp (by simp), rfl⟩
  | leaving told d =>
    have hw : m.worker? = none := by simp [worker?, hp]
    cases e with
    | stop => exact ⟨.stop, rfl⟩
    | answer | panic =>
      simp only [handle, answer, panic, finding?, hp]
      exact ⟨.idle hw (by simp) (by simp) (by simp), rfl⟩
    | exit | timer =>
      simp only [handle, exit, elapse, finding?, hp]
      cases told with
      | true => exact ⟨.gone hp (by simp), rfl⟩
      | false => exact ⟨.crash hp (by simp), rfl⟩
  | delaying t =>
    have hw : m.worker? = none := by simp [worker?, hp]
    cases e with
    | timer =>
      simp only [handle, elapse, finding?, hp]
      by_cases hz : m.settings.timeout.millis = 0
      · simp only [hz, dispatch_zero hz, if_true]
        exact ⟨.beginInVain hp hz, rfl⟩
      · simp only [hz, dispatch_pos hz, if_false]
        exact ⟨.begin hp hz, rfl⟩
    | stop => exact ⟨.stop, rfl⟩
    | _ =>
      simp only [handle, answer, panic, exit, finding?, hp]
      exact ⟨.idle hw (by simp) (by simp) fun _ => by simp [busy, hp], rfl⟩
  | stopped =>
    have hw : m.worker? = none := by simp [worker?, hp]
    cases e with
    | stop => exact ⟨.stop, rfl⟩
    | _ =>
      simp only [handle, answer, panic, exit, elapse, finding?, hp]
      exact ⟨.idle hw (by simp) (fun _ => by simp [timer?, hp]) fun _ => by simp [busy, hp], rfl⟩

theorem handle_turn (m : Machine) (now : Nat) (e : Event) :
    Turn m now e (m.handle now e).1 (m.finding? e) :=
  (handle_eq m now e).1

/-- A step leads to a status exactly if something came to light. -/
theorem handle_status (m : Machine) (now : Nat) (e : Event) :
    (m.handle now e).2 = (m.finding? e).map m.shown :=
  (handle_eq m now e).2

theorem Turn.settings {m m' : Machine} {now : Nat} {e : Event} {f : Option Finding}
    (h : Turn m now e m' f) : m'.settings = m.settings := by
  cases h <;> rfl

/-- A report comes from the answer to a worker that has not reported. -/
theorem finding_report {m : Machine} {e : Event} {r : Report} (h : m.finding? e = some (.report r)) :
    ∃ w d answers next, m.phase = .awaiting w d ∧ e = .answer answers ∧
      w.resume (answers w.call) = .report r next := by
  have hturn := m.handle_turn 0 e
  rw [h] at hturn
  generalize (m.handle 0 e).1 = m' at hturn
  cases hturn with
  | reportAndDrain hp hr => exact ⟨_, _, _, _, hp, rfl, hr⟩
  | reportAndLeave hp hr => exact ⟨_, _, _, _, hp, rfl, hr⟩

theorem Turn.attempt_le {m m' : Machine} {now : Nat} {e : Event} {f : Option Finding}
    (h : Turn m now e m' f) : m.attempt ≤ m'.attempt := by
  cases h with
  | begin | beginInVain => exact Nat.le_succ _
  | _ => exact Nat.le_refl _

theorem Turn.attempt_eq {m m' : Machine} {now : Nat} {e : Event} {f : Option Finding}
    (h : Turn m now e m' f) (he : e ≠ .timer) : m'.attempt = m.attempt := by
  cases h with
  | begin | beginInVain => exact absurd rfl he
  | _ => rfl

theorem Turn.timer {m m' : Machine} {now : Nat} {e : Event} {f : Option Finding}
    (h : Turn m now e m' f) (he : e ≠ .stop) (hm : m.timer? ≠ none) : m'.timer? ≠ none := by
  cases h with
  | stop => exact absurd rfl he
  | idle => exact hm
  | _ => simp [timer?, begun]

end Machine

namespace Session

@[simp] theorem machine_issue (s : Session) (now : Nat) : (s.issue now).machine = s.machine := by
  unfold issue
  split <;> rfl

@[simp] theorem journal_issue (s : Session) (now : Nat) : (s.issue now).journal = s.journal := by
  unfold issue
  split <;> rfl

/-- What the next act of a probe at time `now` is to its machine, if it is anything to it, with the
journal after it. -/
def event (s : Session) (now : Nat) : Option Event × Journal :=
  if s.workerFirst then
    match s.machine.worker? with
    | none => (some .exit, s.journal)
    | some w =>
      let journal := (w.call.perform w.id (stampAt now) s.journal).2
      match s.fault.effect with
      | .works => (some (.answer fun c => (c.perform w.id (stampAt now) s.journal).1), journal)
      | .fails e => (some (.answer fun _ => .error e), s.journal)
      | .panics => (some .panic, s.journal)
      | .unanswered => (none, journal)
      | .hangs => (none, s.journal)
  else (some .timer, s.journal)

@[simp] theorem taken_issue (s : Session) (now : Nat) : (s.issue now).taken = false := by
  unfold issue
  split <;> rfl

theorem workerFirst_busy {s : Session} (h : s.workerFirst = true) :
    s.machine.busy = true ∧ (s.machine.worker?.isSome = true → s.fault.effect ≠ .hangs ∧ s.taken = false) := by
  unfold workerFirst at h
  split at h
  · next hw hp => simp_all [Machine.busy, wake?]
  · next hw hp => simp_all [Machine.busy, wake?]
  · next hw hp => simp [Machine.busy, Machine.worker?, hp]
  · cases h

/-- An act of a probe is an event of its machine, after which the next call is made; or else the journal
takes a call whose worker goes on waiting. -/
theorem act_cases (s : Session) (now : Nat) :
    (∃ e, (s.event now).1 = some e ∧ s.act now = (issue { s with
        machine := (s.machine.handle now e).1, journal := (s.event now).2 } now, (s.machine.handle now e).2)) ∨
      ∃ w, (s.event now).1 = none ∧ s.machine.worker? = some w ∧ s.taken = false ∧
        (s.event now).2 = (w.call.perform w.id (stampAt now) s.journal).2 ∧
        s.act now = ({ s with journal := (s.event now).2, taken := true }, none) := by
  unfold act event
  by_cases hc : s.workerFirst = true
  · simp only [hc, if_true, perform]
    cases hw : s.machine.worker? with
    | none => exact Or.inl ⟨_, rfl, rfl⟩
    | some w =>
      obtain ⟨hhangs, htaken⟩ := (workerFirst_busy hc).2 (by rw [hw]; rfl)
      cases he : s.fault.effect with
      | unanswered => exact Or.inr ⟨w, rfl, rfl, htaken, rfl, rfl⟩
      | hangs => exact absurd he hhangs
      | _ => exact Or.inl ⟨_, rfl, rfl⟩
  · simp only [hc]
    exact Or.inl ⟨_, rfl, rfl⟩

theorem act_of_event {s : Session} {now : Nat} {e : Event} {j : Journal} (h : s.event now = (some e, j)) :
    s.act now = (issue { s with machine := (s.machine.handle now e).1, journal := j } now,
      (s.machine.handle now e).2) := by
  obtain ⟨e', he, hact⟩ | ⟨w, he, -⟩ := s.act_cases now
  · rw [h] at he hact
    obtain rfl := Option.some.inj he
    exact hact
  · rw [h] at he
    cases he

theorem machine_start (settings : Settings) (journal : Journal) (faults : Faults) (now : Nat) :
    (start settings journal faults now).1.machine = ((Machine.new settings).dispatch now).1 :=
  machine_issue _ _

theorem machine_act (s : Session) (now : Nat) :
    (s.act now).1.machine = (s.machine.meet now (s.event now).1).1 := by
  obtain ⟨e, he, hact⟩ | ⟨w, he, -, -, -, hact⟩ := s.act_cases now
  · rw [hact, he, machine_issue]
    rfl
  · rw [hact, he]
    rfl

theorem status_act (s : Session) (now : Nat) :
    (s.act now).2 = (s.machine.meet now (s.event now).1).2 := by
  obtain ⟨e, he, hact⟩ | ⟨w, he, -, -, -, hact⟩ := s.act_cases now
  · rw [hact, he]
    rfl
  · rw [hact, he]
    rfl

end Session
end HealthSignal.RoundTrip
