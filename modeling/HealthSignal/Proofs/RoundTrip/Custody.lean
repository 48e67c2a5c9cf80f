import HealthSignal.Proofs.RoundTrip.Recovery

/-! The records of a probe between its calls. Whatever befalls a call, the journal keeps what the machine
expects to find, and a worker knows of the records what its next step relies on. -/
namespace HealthSignal.RoundTrip
open Journal (Ledger)

variable {m : Machine} {j : Journal} {es ss : List Record}

/-- What a phase knows of the records of `id`. A worker that prunes has left both expected records. -/
def Phase.Sound (id : String) (expect : Expectation) (es ss : List Record) : Phase → Prop
  | .awaiting w _ => w.id = id ∧ w.expect = expect ∧ w.stage.Sound es ss
  | .draining w _ => w.id = id ∧ ∃ seq, w.stage = .pruning seq ∧ expect = ⟨some seq, some seq⟩
  | .leaving .. | .delaying _ | .stopped => True

def Machine.Holds (m : Machine) (j : Journal) : Prop :=
  ∃ es ss, Ledger m.settings.id j es ss ∧ m.expect.Met es ss

/-- The journal holds what a machine expects. Its worker knows of the records what it relies on, unless its
call was `taken` and it waits in vain. -/
def Machine.Sound (m : Machine) (j : Journal) (taken : Bool) : Prop :=
  ∃ es ss, Ledger m.settings.id j es ss ∧ m.expect.Met es ss ∧
    (taken = false → m.phase.Sound m.settings.id m.expect es ss)

inductive Happening (m : Machine) (j : Journal) (taken : Bool) : Event → Journal → Prop
  | works {w : Worker} {stamp : Nat} : taken = false → m.worker? = some w → stamp < UInt64.size →
    Happening m j taken (.answer fun c => (c.perform w.id stamp j).1) (w.performed stamp j)
  | fails (e : JournalError) : taken = false → Happening m j taken (.answer fun _ => .error e) j
  | panics : Happening m j taken .panic j
  | exit : Happening m j taken .exit j
  | timer : Happening m j taken .timer j
  | stop : Happening m j taken .stop j

def Machine.Counts (m : Machine) : Prop :=
  ∀ w, m.worker? = some w → ∀ seq, w.call.seq? = some seq → seq < UInt64.size

theorem Happening.untaken {taken : Bool} {answers : Machine.Answers} {j' : Journal}
    (h : Happening m j taken (.answer answers) j') : taken = false := by
  cases h <;> assumption

theorem Happening.same {taken : Bool} {e : Event} {j' : Journal} (h : Happening m j taken e j')
    (he : ∀ answers, e ≠ .answer answers) : j' = j := by
  cases h with
  | works | fails => exact absurd rfl (he _)
  | _ => rfl

theorem Machine.Holds.sound (h : m.Holds j) (hw : m.worker? = none) (taken : Bool) : m.Sound j taken := by
  obtain ⟨es, ss, hledger, hmet⟩ := h
  refine ⟨es, ss, hledger, hmet, fun _ => ?_⟩
  cases hp : m.phase with
  | awaiting | draining => simp [Machine.worker?, hp] at hw
  | _ => trivial

namespace Machine.Sound
variable {taken : Bool}

theorem holds (h : m.Sound j taken) : m.Holds j := by
  obtain ⟨es, ss, hledger, hmet, -⟩ := h
  exact ⟨es, ss, hledger, hmet⟩

theorem awaiting (h : m.Sound j false) {w : Worker} {d : Nat} (hp : m.phase = .awaiting w d) :
    w.id = m.settings.id ∧ w.expect = m.expect := by
  obtain ⟨es, ss, -, -, hphase⟩ := h
  have hphase := hphase rfl
  rw [hp] at hphase
  exact ⟨hphase.1, hphase.2.1⟩

theorem draining (h : m.Sound j false) {w : Worker} {d : Nat} (hp : m.phase = .draining w d) :
    w.id = m.settings.id ∧ ∃ seq, w.stage = .pruning seq ∧ m.expect = ⟨some seq, some seq⟩ := by
  obtain ⟨es, ss, -, -, hphase⟩ := h
  have hphase := hphase rfl
  rw [hp] at hphase
  exact hphase

/-- What the call of a worker that has not reported leads it to, and the records after that. -/
theorem progress (h : m.Sound j false) (hid : m.settings.id ≠ "") (hm : m.Counts) {w : Worker} {d : Nat}
    (hp : m.phase = .awaiting w d) {answers : Machine.Answers} {j' : Journal}
    (he : Happening m j false (.answer answers) j') :
    ∃ es ss, Ledger m.settings.id j' es ss ∧ m.expect.Met es ss ∧
      (w.resume (answers w.call)).Sound m.expect es ss := by
  obtain ⟨es, ss, hledger, hmet, hphase⟩ := h
  have hphase := hphase rfl
  rw [hp] at hphase
  obtain ⟨hwid, hexpect, hstage⟩ := hphase
  have hw : m.worker? = some w := by rw [Machine.worker?, hp]
  rw [← hexpect] at hmet ⊢
  cases he with
  | works _ hw' hstamp =>
    obtain rfl := Option.some.inj (hw.symm.trans hw')
    rw [← hwid] at hid hledger ⊢
    exact Worker.resume_works hid hledger hstage hmet hstamp (hm w hw)
  | fails e => exact ⟨es, ss, hledger, hmet, Worker.resume_fails hstage hmet e⟩

/-- Pruning leaves both expected records. -/
theorem prune (h : m.Sound j false) (hm : m.Counts) {w : Worker} {d : Nat}
    (hp : m.phase = .draining w d) (stamp : Nat) : m.Holds (w.performed stamp j) := by
  obtain ⟨hwid, seq, hstage, hexpect⟩ := h.draining hp
  obtain ⟨es, ss, hledger, hmet, -⟩ := h
  have hcall : w.call = .prune seq := by rw [Worker.call, hstage]; rfl
  have hseq : seq < UInt64.size :=
    hm w (by rw [Machine.worker?, hp]) seq (by rw [hcall]; rfl)
  have hperformed : w.performed stamp j = (j.prune m.settings.id seq).1 := by
    rw [Worker.performed, hcall, hwid]
    rfl
  rw [hperformed]
  refine ⟨_, _, hledger.prune hseq, ⟨fun n hn => ?_, fun n hn => ?_⟩⟩
  · obtain ⟨r, hr, hrn⟩ := hmet.journal n hn
    have : seq = n := by simpa [hexpect] using hn
    exact ⟨r, List.mem_filter.mpr ⟨hr, by simp; omega⟩, hrn⟩
  · obtain ⟨r, hr, hrn⟩ := hmet.snapshot n hn
    have : seq = n := by simpa [hexpect] using hn
    exact ⟨r, List.mem_filter.mpr ⟨hr, by simp; omega⟩, hrn⟩

/-- A call that the journal takes leaves there what the machine expects, whether or not it is answered. -/
theorem take (h : m.Sound j false) (hid : m.settings.id ≠ "") (hm : m.Counts) {w : Worker}
    (hw : m.worker? = some w) {stamp : Nat} (hstamp : stamp < UInt64.size) : m.Sound (w.performed stamp j) true := by
  have hholds : m.Holds (w.performed stamp j) := by
    cases hp : m.phase with
    | awaiting w' d =>
      obtain rfl : w' = w := by simpa [Machine.worker?, hp] using hw
      obtain ⟨es, ss, hledger, hmet, -⟩ := h.progress hid hm hp (.works rfl hw hstamp)
      exact ⟨es, ss, hledger, hmet⟩
    | draining w' d =>
      obtain rfl : w' = w := by simpa [Machine.worker?, hp] using hw
      exact h.prune hm hp stamp
    | _ => simp [Machine.worker?, hp] at hw
  obtain ⟨es, ss, hledger, hmet⟩ := hholds
  exact ⟨es, ss, hledger, hmet, by simp⟩

theorem begun (h : m.Holds j) (now : Nat) : (m.begun now).Sound j taken := by
  obtain ⟨es, ss, hledger, hmet⟩ := h
  exact ⟨es, ss, hledger, hmet, fun _ => ⟨rfl, rfl, trivial⟩⟩

theorem dispatch (h : m.Holds j) (now : Nat) : (m.dispatch now).1.Sound j taken := by
  by_cases hz : m.settings.timeout.millis = 0
  · rw [dispatch_zero hz]
    refine Holds.sound ?_ rfl taken
    exact h
  · rw [dispatch_pos hz]
    exact begun h now

theorem handle (h : m.Sound j taken) (hid : m.settings.id ≠ "") (hm : m.Counts) {e : Event}
    {j' : Journal} (he : Happening m j taken e j') (now : Nat) : (m.handle now e).1.Sound j' false := by
  have hturn := m.handle_turn now e
  generalize (m.handle now e).1 = m', m.finding? e = f at hturn
  cases hturn with
  | ask hp hr =>
    obtain rfl := he.untaken
    obtain ⟨es, ss, hledger, hmet, hprogress⟩ := h.progress hid hm hp he
    obtain ⟨hwid, hexpect⟩ := h.awaiting hp
    rw [hr] at hprogress
    exact ⟨es, ss, hledger, hmet, fun _ => ⟨hwid, hexpect, hprogress⟩⟩
  | reportAndDrain hp hr =>
    obtain rfl := he.untaken
    obtain ⟨es, ss, hledger, -, hprogress⟩ := h.progress hid hm hp he
    obtain ⟨hwid, -⟩ := h.awaiting hp
    rw [hr] at hprogress
    obtain ⟨-, hmet, hnext⟩ := hprogress
    obtain ⟨seq, rfl, rfl⟩ := hnext _ rfl
    exact ⟨es, ss, hledger, hmet, fun _ => ⟨hwid, seq, rfl, rfl⟩⟩
  | reportAndLeave hp hr =>
    obtain rfl := he.untaken
    obtain ⟨es, ss, hledger, -, hprogress⟩ := h.progress hid hm hp he
    rw [hr] at hprogress
    obtain ⟨-, hmet, -⟩ := hprogress
    exact ⟨es, ss, hledger, hmet, fun _ => trivial⟩
  | quit hp hr =>
    obtain rfl := he.untaken
    obtain ⟨es, ss, -, -, hprogress⟩ := h.progress hid hm hp he
    rw [hr] at hprogress
    exact hprogress.elim
  | leave hp he' =>
    cases he with
    | works htaken hw hstamp =>
      subst htaken
      obtain rfl := Option.some.inj ((show m.worker? = some _ by rw [Machine.worker?, hp]).symm.trans hw)
      refine Holds.sound ?_ rfl false
      exact h.prune hm hp _
    | fails | panics =>
      refine Holds.sound ?_ rfl false
      exact h.holds
    | _ => simp at he'
  | begin =>
    cases he
    exact begun h.holds now
  | idle hw =>
    cases he with
    | works _ hw' => cases hw.symm.trans hw'
    | _ => exact Holds.sound h.holds hw false
  | dismiss _ he' | gone _ he' | crash _ he' =>
    obtain rfl := he.same (by obtain rfl | rfl := he' <;> simp)
    refine Holds.sound ?_ rfl false
    exact h.holds
  | breakOff | vanish | timeout | beginInVain | stop =>
    cases he
    refine Holds.sound ?_ rfl false
    exact h.holds

theorem lossless (h : m.Sound j taken) (hid : m.settings.id ≠ "") (hm : m.Counts) {e : Event}
    {j' : Journal} (he : Happening m j taken e j') {r : Report} (hr : m.finding? e = some (.report r)) :
    r.Lossless := by
  obtain ⟨w, d, answers, next, hp, rfl, heq⟩ := Machine.finding_report hr
  obtain rfl := he.untaken
  obtain ⟨es, ss, -, -, hprogress⟩ := h.progress hid hm hp he
  rw [heq] at hprogress
  exact hprogress.1

theorem append (h : m.Sound j false) (hid : m.settings.id ≠ "") {w : Worker} {d : Nat}
    (hp : m.phase = .awaiting w d) {seq : Nat} {payload : String} (hc : w.call = .append seq payload)
    (stamp : Nat) : ∃ j', j.append stamp w.id seq payload = .ok j' := by
  obtain ⟨es, ss, hledger, -, hphase⟩ := h
  have hphase := hphase rfl
  rw [hp] at hphase
  obtain ⟨hwid, -, hstage⟩ := hphase
  obtain ⟨wid, attempt, expect, stage⟩ := w
  cases stage with
  | appending recovered n =>
    obtain ⟨rfl, rfl⟩ : n = seq ∧ _ = payload := by simpa [Worker.call, Worker.callOf] using hc
    obtain rfl : wid = m.settings.id := hwid
    exact ⟨_, hledger.append_eq hid hstage.2.1 stamp _⟩
  | _ => simp [Worker.call, Worker.callOf] at hc

end Machine.Sound

namespace Session
variable {s : Session}

/-- No call of the session comes near the end of the sequence numbers. -/
def Unexhausted (s : Session) : Prop :=
  ∀ c ∈ s.calls, ∀ seq ∈ c.2.seq?, seq < UInt64.size - 1

structure Intact (s : Session) : Prop where
  sound : s.machine.Sound s.journal s.taken
  called : ∀ w, s.machine.worker? = some w → ∃ t, (t, w.call) ∈ s.calls

theorem Intact.counts (h : s.Intact) (hu : s.Unexhausted) : s.machine.Counts := by
  intro w hw seq hseq
  obtain ⟨t, ht⟩ := h.called w hw
  have := hu _ ht seq hseq
  omega

theorem issue_called (s : Session) (now : Nat) {w : Worker}
    (h : (s.issue now).machine.worker? = some w) : (now, w.call) ∈ (s.issue now).calls := by
  rw [machine_issue] at h
  simp [issue, h]

theorem calls_issue (s : Session) (now : Nat) : s.calls ⊆ (s.issue now).calls := by
  unfold issue
  split
  · exact List.subset_cons_self _ _
  · exact fun _ h => h

theorem calls_act (s : Session) (now : Nat) : s.calls ⊆ (s.act now).1.calls := by
  obtain ⟨e, -, hact⟩ | ⟨w, -, -, -, -, hact⟩ := s.act_cases now
  · rw [hact]
    exact calls_issue { s with machine := (s.machine.handle now e).1, journal := (s.event now).2 } now
  · rw [hact]
    exact fun _ h => h

theorem settings_act (s : Session) (now : Nat) :
    (s.act now).1.machine.settings = s.machine.settings := by
  obtain ⟨e, -, hact⟩ | ⟨w, -, -, -, -, hact⟩ := s.act_cases now
  · rw [hact, machine_issue]
    exact (s.machine.handle_turn now e).settings
  · rw [hact]

theorem attempt_act (s : Session) (now : Nat) : s.machine.attempt ≤ (s.act now).1.machine.attempt := by
  obtain ⟨e, -, hact⟩ | ⟨w, -, -, -, -, hact⟩ := s.act_cases now
  · rw [hact, machine_issue]
    exact (s.machine.handle_turn now e).attempt_le
  · exact Nat.le_of_eq (by rw [hact])

theorem stampAt_lt (now : Nat) : stampAt now < UInt64.size := by
  simp only [stampAt]
  have : 0 < UInt64.size := by decide
  omega

/-- What a session does next is something that may happen to its machine. -/
theorem happening {now : Nat} {e : Event} (he : (s.event now).1 = some e) :
    Happening s.machine s.journal s.taken e (s.event now).2 := by
  unfold event at he ⊢
  by_cases hc : s.workerFirst = true
  · rw [if_pos hc] at he ⊢
    cases hw : s.machine.worker? with
    | none =>
      simp only [hw] at he ⊢
      obtain rfl := Option.some.inj he
      exact .exit
    | some w =>
      obtain ⟨-, htaken⟩ := (workerFirst_busy hc).2 (by rw [hw]; rfl)
      simp only [hw] at he ⊢
      cases heffect : s.fault.effect with
      | works =>
        simp only [heffect] at he ⊢
        obtain rfl := Option.some.inj he
        exact .works htaken hw (stampAt_lt now)
      | fails e =>
        simp only [heffect] at he ⊢
        obtain rfl := Option.some.inj he
        exact .fails e htaken
      | panics =>
        simp only [heffect] at he ⊢
        obtain rfl := Option.some.inj he
        exact .panics
      | hangs | unanswered => simp [heffect] at he
  · rw [if_neg hc] at he ⊢
    obtain rfl := Option.some.inj he
    exact .timer

theorem Intact.act (h : s.Intact) (hid : s.machine.settings.id ≠ "") (hu : s.Unexhausted)
    (now : Nat) : (s.act now).1.Intact := by
  obtain ⟨e, he, hact⟩ | ⟨w, -, hw, htaken, hj, hact⟩ := s.act_cases now
  · rw [hact]
    exact ⟨by simpa using h.sound.handle hid (h.counts hu) (happening he) now,
      fun w hw => ⟨now, issue_called _ now hw⟩⟩
  · rw [hact, hj]
    exact ⟨(htaken ▸ h.sound).take hid (h.counts hu) hw (stampAt_lt now), h.called⟩

theorem Intact.stop (h : s.Intact) : s.stop.Intact :=
  ⟨Machine.Holds.sound (m := s.machine.stop) h.sound.holds rfl _, fun w hw => by cases hw⟩

theorem Intact.elsewhere (h : s.Intact) {j : Journal}
    (hj : Journal.Elsewhere s.machine.settings.id s.journal j) : Intact { s with journal := j } := by
  obtain ⟨es, ss, hledger, hrest⟩ := h.sound
  exact ⟨⟨es, ss, hledger.elsewhere hj, hrest⟩, h.called⟩

theorem Intact.start {settings : Settings} {es ss : List Record} (hledger : Ledger settings.id j es ss)
    (faults : Faults) (now : Nat) : (Session.start settings j faults now).1.Intact := by
  have hnew : (Machine.new settings).Holds j :=
    ⟨es, ss, hledger, ⟨by simp [Machine.new, Expectation.nothing], by simp [Machine.new, Expectation.nothing]⟩⟩
  exact ⟨by simpa [Session.start] using Machine.Sound.dispatch hnew now, fun w hw => ⟨now, issue_called _ now hw⟩⟩

end Session
end HealthSignal.RoundTrip
