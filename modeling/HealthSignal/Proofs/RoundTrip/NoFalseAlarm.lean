import HealthSignal.Proofs.RoundTrip.Custody
import HealthSignal.Proofs.RoundTrip.Run

/-! A persistence probe that alone writes under its id raises no false alarm. None of its workers reports
a loss, and every round trip without faults makes it go up, whatever happened before. -/
namespace HealthSignal.RoundTrip
open Journal (Ledger)

variable {id : String} {j : Journal} {es ss : List Record}

def Stage.rest : Stage → List CallKind
  | .loading => [.replay, .append, .save]
  | .replaying _ => [.append, .save]
  | .appending _ _ => [.save]
  | .saving _ | .pruning _ => []

def Stage.Whole : Stage → Prop
  | .loading | .saving _ => True
  | .replaying recovered | .appending recovered _ => ∃ n, recovered = .ok n
  | .pruning _ => False

/-- A worker whose call reaches the journal comes to its next call, or is done with its last. -/
theorem Worker.resume_whole {w : Worker} (hid : w.id ≠ "") (h : Ledger w.id j es ss)
    (hs : w.stage.Sound es ss) (he : w.expect.Met es ss) (hw : w.stage.Whole) {stamp : Nat}
    (hstamp : stamp < UInt64.size) (hseq : ∀ seq, w.call.seq? = some seq → seq < UInt64.size) :
    (∃ stage, w.resume (w.answered stamp j) = .ask stage ∧ stage.Whole ∧
      w.stage.rest = (callOf w.marker stage).kind :: stage.rest) ∨
    ∃ seq, w.stage = .saving seq ∧ w.resume (w.answered stamp j) =
      .report (.success seq) (if w.attempt > 1 then some (.pruning seq) else none) := by
  obtain ⟨wid, attempt, expect, stage⟩ := w
  cases stage with
  | loading =>
    obtain ⟨n, -, hw⟩ := resume_loading attempt stamp h he
    exact Or.inl ⟨_, hw, ⟨n, rfl⟩, rfl⟩
  | replaying recovered =>
    obtain ⟨n, rfl⟩ := hw
    obtain ⟨seq, -, -, hw⟩ := resume_replaying attempt stamp (.ok n) h he
    exact Or.inl ⟨_, hw, ⟨n, rfl⟩, rfl⟩
  | appending recovered seq =>
    obtain ⟨n, rfl⟩ := hw
    obtain ⟨hok, -⟩ := perform_appending attempt expect (.ok n) h hid hs.2.1 (hseq seq rfl) hstamp
    rw [hok]
    exact Or.inl ⟨.saving seq, rfl, trivial, rfl⟩
  | saving seq =>
    obtain ⟨hok, -⟩ := perform_saving attempt expect h hid hs.2 (hseq seq rfl) hstamp
    rw [hok]
    exact Or.inr ⟨seq, rfl, rfl⟩
  | pruning seq => exact hw.elim

namespace Session
variable {s : Session}

def next (s : Session) (k : CallKind) : Fault := s.faults k (s.calls.countP (·.2.kind == k) + 1)

def span (s : Session) (ks : List CallKind) : Nat :=
  ks.foldr (fun k n => (s.next k).wait.timer + n) 0

theorem span_cons (s : Session) (k : CallKind) (ks : List CallKind) :
    s.span (k :: ks) = (s.next k).wait.timer + s.span ks := rfl

theorem span_congr {s s' : Session} {ks : List CallKind} (h : ∀ k ∈ ks, s'.next k = s.next k) :
    s'.span ks = s.span ks := by
  induction ks with
  | nil => rfl
  | cons k ks ih =>
    rw [span_cons, span_cons, h k List.mem_cons_self, ih fun k' hk => h k' (List.mem_cons_of_mem k hk)]

def begun (s : Session) (now : Nat) : Session :=
  issue { s with machine := s.machine.begun now } now

def exchange : List CallKind := [.load, .replay, .append, .save]

theorem fault_issue {w : Worker} (h : s.machine.worker? = some w) (now : Nat) :
    (s.issue now).fault = s.next w.call.kind := by
  simp [issue, h, next]

theorem wake_issue {w : Worker} (h : s.machine.worker? = some w) (now : Nat) :
    (s.issue now).wake = now + (s.next w.call.kind).wait.timer := by
  simp [issue, h, next]

theorem next_issue {w : Worker} (h : s.machine.worker? = some w) (now : Nat) {k : CallKind}
    (hk : w.call.kind ≠ k) : (s.issue now).next k = s.next k := by
  simp [issue, h, next, hk]

structure Underway (s : Session) (now attempt limit : Nat) (w : Worker) : Prop where
  phase : ∃ d, s.machine.phase = .awaiting w d ∧ limit < d
  attempt_eq : s.machine.attempt = attempt
  whole : w.stage.Whole
  effect : s.fault.effect = .works
  untaken : s.taken = false
  timely : now ≤ s.wake
  rest : ∀ k ∈ w.stage.rest, (s.next k).effect = .works
  ends : s.wake + s.span w.stage.rest = limit

theorem Underway.worker {now attempt limit : Nat} {w : Worker} (h : s.Underway now attempt limit w) :
    s.machine.worker? = some w := by
  obtain ⟨d, hp, -⟩ := h.phase
  rw [Machine.worker?, hp]

/-- A session that has come to a call is under way if neither this call nor the rest is faulted. -/
theorem underway_issue {now attempt limit d : Nat} {w : Worker}
    (hp : s.machine.phase = .awaiting w d) (hd : limit < d) (ha : s.machine.attempt = attempt)
    (hw : w.stage.Whole) (hf : ∀ k ∈ w.call.kind :: w.stage.rest, (s.next k).effect = .works)
    (hl : now + s.span (w.call.kind :: w.stage.rest) = limit) :
    (s.issue now).Underway now attempt limit w := by
  have hworker : s.machine.worker? = some w := by rw [Machine.worker?, hp]
  have hnext : ∀ k ∈ w.stage.rest, (s.issue now).next k = s.next k := by
    intro k hk
    refine next_issue hworker now fun hc => ?_
    subst hc
    obtain ⟨wid, n, expect, stage⟩ := w
    cases stage <;> simp [Stage.rest, Worker.call, Worker.callOf, Call.kind] at hk
  have hspan : (s.issue now).span w.stage.rest = s.span w.stage.rest := span_congr hnext
  refine ⟨⟨d, by rw [machine_issue, hp], hd⟩, by rw [machine_issue, ha], hw, ?_, taken_issue s now, ?_, ?_, ?_⟩
  · rw [fault_issue hworker]
    exact hf _ List.mem_cons_self
  · rw [wake_issue hworker]
    exact Nat.le_add_right _ _
  · intro k hk
    rw [hnext k hk]
    exact hf k (List.mem_cons_of_mem _ hk)
  · rw [wake_issue hworker, hspan, ← hl, span_cons]
    omega

theorem begun_underway {now : Nat} (hf : ∀ k ∈ exchange, (s.next k).effect = .works)
    (hspan : s.span exchange < s.machine.settings.timeout.timer) :
    (s.begun now).Underway now (s.machine.attempt + 1) (now + s.span exchange)
      (.start s.machine.settings.id (s.machine.attempt + 1) s.machine.expect) :=
  underway_issue rfl (by omega) rfl trivial hf rfl

section
variable {now attempt limit : Nat} {w : Worker}

theorem Underway.wake_le (h : s.Underway now attempt limit w) : s.wake ≤ limit := by
  have := h.ends
  omega

theorem Underway.workerFirst (h : s.Underway now attempt limit w) :
    s.wake? = some s.wake ∧ s.workerFirst = true := by
  obtain ⟨d, hp, hd⟩ := h.phase
  have hwake : s.wake? = some s.wake := by simp [wake?, hp, h.effect, h.untaken]
  have hlt : s.wake < d := Nat.lt_of_le_of_lt h.wake_le hd
  exact ⟨hwake, by simp [Session.workerFirst, hwake, hp, hlt]⟩

theorem Underway.due (h : s.Underway now attempt limit w) : s.due = some s.wake := by
  rw [Session.due, if_pos h.workerFirst.2, h.workerFirst.1]

theorem Underway.pass (h : s.Underway now attempt limit w) {later : Nat} (hl : later ≤ s.wake) :
    s.Underway later attempt limit w :=
  { h with timely := hl }

/-- The call of a round trip under way reaches the journal, and the worker is resumed with its answer. -/
theorem Underway.act_eq (h : s.Underway now attempt limit w) {d : Nat} (hp : s.machine.phase = .awaiting w d) :
    s.act s.wake = (issue { s with
      machine := (s.machine.proceed s.wake w d (w.resume (w.answered (stampAt s.wake) s.journal))).1
      journal := w.performed (stampAt s.wake) s.journal } s.wake,
      (s.machine.proceed s.wake w d (w.resume (w.answered (stampAt s.wake) s.journal))).2) := by
  have hevent : s.event s.wake = (some (.answer fun c => (c.perform w.id (stampAt s.wake) s.journal).1),
      w.performed (stampAt s.wake) s.journal) := by
    simp only [event, h.workerFirst.2, h.worker, h.effect, if_true]
    rfl
  rw [act_of_event hevent]
  simp only [Machine.handle, Machine.answer, hp]
  rfl

/-- A round trip under way comes to its next call, or reports after the last. -/
theorem Underway.step (h : s.Underway now attempt limit w) (hid : s.machine.settings.id ≠ "")
    (hs : s.Intact) (hu : s.Unexhausted) :
    (∃ w', (s.act s.wake).1.Underway s.wake attempt limit w') ∨
      ∃ d seq, s.machine.phase = .awaiting w d ∧ w.stage = .saving seq ∧
        w.resume (w.answered (stampAt s.wake) s.journal) =
          .report (.success seq) (if w.attempt > 1 then some (.pruning seq) else none) := by
  obtain ⟨d, hp, hd⟩ := h.phase
  obtain ⟨es, ss, hledger, hmet, hphase⟩ := hs.sound
  have hphase := hphase h.untaken
  rw [hp] at hphase
  obtain ⟨hwid, hexpect, hstage⟩ := hphase
  rw [← hwid] at hid hledger
  rw [← hexpect] at hmet
  obtain ⟨stage, hres, hwhole, hrest⟩ | ⟨seq, hsaving, hres⟩ := Worker.resume_whole hid hledger hstage
    hmet h.whole (stampAt_lt s.wake) (hs.counts hu w h.worker)
  · left
    rw [h.act_eq hp, hres]
    have hrest' : ∀ k ∈ (Worker.callOf w.marker stage).kind :: stage.rest,
      (s.next k).effect = .works := fun k hk => h.rest k (hrest ▸ hk)
    have hends := h.ends
    rw [hrest] at hends
    refine ⟨{ w with stage := stage }, ?_⟩
    simp only [Machine.proceed]
    exact underway_issue rfl hd h.attempt_eq hwhole hrest' hends
  · exact Or.inr ⟨d, seq, hp, hsaving, hres⟩

/-- Its report makes the probe go up. -/
theorem Underway.act (h : s.Underway now attempt limit w) (hid : s.machine.settings.id ≠ "")
    (hs : s.Intact) (hu : s.Unexhausted) :
    (∃ w', (s.act s.wake).1.Underway s.wake attempt limit w') ∨
      (s.act s.wake).1.machine.attempt = attempt ∧
      (∀ w d, (s.act s.wake).1.machine.phase ≠ .awaiting w d) ∧
      (s.act s.wake).2 = some succeeded := by
  obtain hnext | ⟨d, seq, hp, -, hres⟩ := h.step hid hs hu
  · exact Or.inl hnext
  · right
    rw [h.act_eq hp, hres, machine_issue, ← h.attempt_eq]
    split
    · exact ⟨rfl, fun w d hp => by simp [Machine.proceed] at hp, rfl⟩
    · exact ⟨rfl, fun w d hp => by simp [Machine.proceed] at hp, rfl⟩

end

/-- Every round trip with any time for it begins like this. -/
theorem act_begun (ht : s.machine.settings.timeout.millis ≠ 0) {now : Nat}
    (ha : (s.act now).1.machine.attempt ≠ s.machine.attempt) : (s.act now).1 = s.begun now := by
  obtain ⟨e, he, hact⟩ | ⟨w, -, -, -, -, hact⟩ := s.act_cases now
  · have hhappening := happening he
    have hturn := s.machine.handle_turn now e
    rw [hact, machine_issue] at ha
    rw [hact]
    generalize (s.event now).2 = j, (s.machine.handle now e).1 = m, s.machine.finding? e = f at *
    cases hturn with
    | begin hp _ =>
      cases hhappening
      rfl
    | beginInVain _ hz => exact absurd hz ht
    | _ => exact absurd rfl ha
  · rw [hact] at ha
    exact absurd rfl ha

def fresh (settings : Settings) (journal : Journal) (faults : Faults) (now : Nat) : Session :=
  ⟨.new settings, journal, faults, .none, now, false, []⟩

theorem start_begun {settings : Settings} (ht : settings.timeout.millis ≠ 0) (journal : Journal)
    (faults : Faults) (now : Nat) :
    Session.start settings journal faults now = ((fresh settings journal faults now).begun now, none) := by
  have : (Machine.new settings).settings.timeout.millis ≠ 0 := ht
  simp only [Session.start, Machine.dispatch_pos this]
  rfl

end Session
end HealthSignal.RoundTrip

namespace HealthSignal.Probe
open RoundTrip Timeline

variable {settings : Settings} {journal : Journal} {faults : Faults} {feed : Feed}
  {p q : Probe} {start now later : Nat}

def Unexhausted (p : Probe) : Prop := ∀ s, p.source = .persistence s → s.Unexhausted

theorem Unexhausted.of_reaches {Change : Journal → Journal → Prop} {s : Session}
    (hp : p.source = .persistence s)
    (h : Leads Change feed now p later q) (hq : q.Unexhausted) :
    p.Unexhausted := by
  obtain ⟨s', hs', hsub⟩ := reaches_session (P := fun s' => s.calls ⊆ s'.calls)
    (fun _ t hP => List.Subset.trans hP (Session.calls_act _ t)) (fun _ _ _ hP => hP)
    (fun _ hP => hP) ⟨s, hp, List.Subset.refl _⟩ h
  intro s₁ hs₁ c hc
  obtain rfl : s = s₁ := by simpa using hp.symm.trans hs₁
  exact hq s' hs' c (hsub hc)

/-- What each step of a session preserves while its journal is intact holds along every run from records of its
own, and the journal never loses what the probe expects. -/
theorem leads_preserves {P : Session → Prop} (hid : settings.id ≠ "") {es ss : List Record}
    (hledger : Journal.Ledger settings.id journal es ss)
    (hact : ∀ s t, s.machine.settings.id ≠ "" → s.Intact → s.Unexhausted → P s → P (s.act t).1)
    (hchange : ∀ s j, Journal.Elsewhere s.machine.settings.id s.journal j → P s → P { s with journal := j })
    (hstop : ∀ s, P s → P s.stop) (hstart : P (Session.start settings journal faults start).1)
    (h : Leads (Journal.Elsewhere settings.id) feed start
      (persistence settings journal faults start) now p) :
    ∃ s, p.source = .persistence s ∧ s.machine.settings = settings ∧
      (s.Unexhausted → s.Intact ∧ P s) := by
  refine reaches_session (P := fun s => s.machine.settings = settings ∧ (s.Unexhausted → s.Intact ∧ P s))
    (fun s t hP => ⟨(s.settings_act t).trans hP.1, fun hu => ?_⟩) (fun s j hc hP => ⟨hP.1, fun hu => ?_⟩)
    (fun s hP => ⟨hP.1, fun hu => ⟨(hP.2 hu).1.stop, hstop s (hP.2 hu).2⟩⟩) ?_ h
  · have hu' : s.Unexhausted := fun c hc => hu c (s.calls_act t hc)
    have hid' : s.machine.settings.id ≠ "" := by rwa [hP.1]
    obtain ⟨hintact, hs⟩ := hP.2 hu'
    exact ⟨hintact.act hid' hu' t, hact s t hid' hintact hu' hs⟩
  · have hc' : Journal.Elsewhere s.machine.settings.id s.journal j := by rwa [hP.1]
    obtain ⟨hintact, hs⟩ := hP.2 hu
    exact ⟨hintact.elsewhere hc', hchange s j hc' hs⟩
  · refine ⟨_, source_persistence settings journal faults start, ?_,
      fun _ => ⟨Session.Intact.start hledger faults start, hstart⟩⟩
    rw [Session.machine_start]
    exact (Machine.new settings).settings_dispatch start

theorem reaches_intact (hid : settings.id ≠ "") (hj : journal.PrivateTo settings.id)
    (h : Leads (Journal.Elsewhere settings.id) feed start
      (persistence settings journal faults start) now p) :
    ∃ s, p.source = .persistence s ∧ s.machine.settings = settings ∧
      (s.Unexhausted → s.Intact) := by
  obtain ⟨es, ss, hledger⟩ := hj.ledger
  obtain ⟨s, hs, hset, hintact⟩ := leads_preserves (P := fun _ => True) hid hledger (fun _ _ _ _ _ _ => trivial)
    (fun _ _ _ _ => trivial) (fun _ _ => trivial) trivial h
  exact ⟨s, hs, hset, fun hu => (hintact hu).1⟩

/-- Along a run, a session whose acts are known keeps to its way `U`, unless it was stopped or came to the end `D`
of it. -/
theorem leads_until {Change : Journal → Journal → Prop} {U : Nat → Session → Prop} {D : Nat → Probe → Prop}
    {s : Session} (hp : p.source = .persistence s) (hs : U now s)
    (hdue : ∀ t s, U t s → ∃ d, s.due = some d ∧ t ≤ d)
    (hpass : ∀ t later s d, U t s → s.due = some d → later ≤ d → U later s)
    (hchange : ∀ t s j, U t s → Change s.journal j → U t { s with journal := j })
    (hact : ∀ t s d r, Leads Change feed now p t r → r.Unexhausted → r.source = .persistence s → U t s →
      s.due = some d → U d (s.act d).1 ∨ D d (r.act feed d))
    (hq : Leads Change feed now p later q) (hu : q.Unexhausted) :
    q.running = false ∨ (∃ s', q.source = .persistence s' ∧ U later s') ∨
      ∃ t r, Leads Change feed now p t r ∧ Leads Change feed t r later q ∧ D t r := by
  induction hq with
  | refl => exact Or.inr (Or.inl ⟨s, hp, hs⟩)
  | @act now' d q hq hd ih =>
    have hstep : Leads Change feed now' q _ _ := Reaches.refl.act hd
    obtain ⟨s', hs', -⟩ := reaches_session (P := fun _ => True) (by simp) (by simp) (by simp) ⟨s, hp, trivial⟩ hq
    have hu' := hu.of_reaches hs' hstep
    obtain hr | ⟨s₁, hs₁, hway⟩ | ⟨t, r, hpr, hrq, hdone⟩ := ih hu'
    · rw [due_persistence hs', hr] at hd
      simp at hd
    · obtain rfl : s' = s₁ := by simpa using hs'.symm.trans hs₁
      obtain ⟨d', hdue', hle⟩ := hdue now' s' hway
      obtain rfl : d' = d := by
        rw [due_persistence hs', hdue'] at hd
        split at hd <;> simp_all
      rw [Nat.max_eq_left hle] at hstep ⊢
      obtain hway' | hdone := hact now' s' d' q hq hu' hs' hway hdue'
      · exact Or.inr (Or.inl ⟨_, source_act hs' feed _, hway'⟩)
      · exact Or.inr (Or.inr ⟨d', _, hq.trans hstep, .refl, hdone⟩)
    · exact Or.inr (Or.inr ⟨t, r, hpr, hrq.trans hstep, hdone⟩)
  | @pass now' later q hq hle hd ih =>
    obtain hr | ⟨s', hs', hway⟩ | ⟨t, r, hpr, hrq, hdone⟩ := ih hu
    · exact Or.inl hr
    · cases hr : q.running with
      | false => exact Or.inl rfl
      | true =>
        obtain ⟨d, hdue', hle'⟩ := hdue now' s' hway
        have hlater := hd d (by rw [due_persistence hs', hdue', hr]; rfl)
        rw [Nat.max_eq_left hle'] at hlater
        exact Or.inr (Or.inl ⟨s', hs', hpass now' later s' d hway hdue' hlater⟩)
    · exact Or.inr (Or.inr ⟨t, r, hpr, hrq.trans (Reaches.refl.pass hle hd), hdone⟩)
  | @move now' q q' hq hm ih =>
    have hstep : Leads Change feed now' q _ _ := Reaches.refl.move hm
    obtain ⟨s', hs', -⟩ := reaches_session (P := fun _ => True) (by simp) (by simp) (by simp) ⟨s, hp, trivial⟩ hq
    obtain hr | ⟨s₁, hs₁, hway⟩ | ⟨t, r, hpr, hrq, hdone⟩ := ih (hu.of_reaches hs' hstep)
    · exact Or.inl (hm.running hr)
    · obtain rfl : s' = s₁ := by simpa using hs'.symm.trans hs₁
      obtain hq' | ⟨hr, -⟩ | ⟨j, hj, hq'⟩ := hm.source hs'
      · exact Or.inr (Or.inl ⟨s', hq', hway⟩)
      · exact Or.inl hr
      · exact Or.inr (Or.inl ⟨_, hq', hchange now' s' j hway hj⟩)
    · exact Or.inr (Or.inr ⟨t, r, hpr, hrq.trans hstep, hdone⟩)

/-- A run passes, not later than `limit`, through a probe that is up when round trip `attempt` has been
evaluated. -/
def UpBy (Change : Journal → Journal → Prop) (feed : Feed) (attempt limit now : Nat) (p : Probe)
    (later : Nat) (q : Probe) : Prop :=
  ∃ t r s, t ≤ limit ∧ Leads Change feed now p t r ∧ Leads Change feed t r later q ∧
    r.source = .persistence s ∧ s.machine.attempt = attempt ∧
    (∀ w d, s.machine.phase ≠ .awaiting w d) ∧ r.hub.current = succeeded

theorem UpBy.trans {Change : Journal → Journal → Prop} {attempt limit now later final : Nat}
    {p q r : Probe} (h : UpBy Change feed attempt limit now p later q)
    (hr : Leads Change feed later q final r) : UpBy Change feed attempt limit now p final r := by
  obtain ⟨t, x, s, ht, hpx, hxq, hup⟩ := h
  exact ⟨t, x, s, ht, hpx, hxq.trans hr, hup⟩

/-- What a round trip that begins without a fault ahead of it comes to: it is under way, or it has made
the probe go up, or the probe has been stopped. -/
theorem leads_up (hid : settings.id ≠ "") (hj : journal.PrivateTo settings.id)
    (h : Leads (Journal.Elsewhere settings.id) feed start
      (persistence settings journal faults start) now p)
    {s : Session} (hp : p.source = .persistence (s.begun now))
    (hf : ∀ k ∈ Session.exchange, (s.next k).effect = .works)
    (hspan : s.span Session.exchange < settings.timeout.timer)
    (hq : Leads (Journal.Elsewhere settings.id) feed now p later q) (hu : q.Unexhausted) :
    q.running = false ∨
    (∃ s' w, q.source = .persistence s' ∧
      s'.Underway later (s.machine.attempt + 1) (now + s.span Session.exchange) w) ∨
    UpBy (Journal.Elsewhere settings.id) feed (s.machine.attempt + 1)
      (now + s.span Session.exchange) now p later q := by
  have hway : (s.begun now).Underway now (s.machine.attempt + 1) (now + s.span Session.exchange)
      (.start s.machine.settings.id (s.machine.attempt + 1) s.machine.expect) := by
    obtain ⟨s', hs', hset, -⟩ := reaches_intact hid hj h
    obtain rfl : s.begun now = s' := by simpa using hp.symm.trans hs'
    rw [Session.begun, Session.machine_issue] at hset
    have hset : s.machine.settings = settings := hset
    exact Session.begun_underway hf (by rw [hset]; exact hspan)
  -- The way is the round trip under way; its end is the probe up once the round trip has been evaluated.
  let U (t : Nat) (s' : Session) : Prop :=
    ∃ w, s'.Underway t (s.machine.attempt + 1) (now + s.span Session.exchange) w
  let D (t : Nat) (r : Probe) : Prop :=
    t ≤ now + s.span Session.exchange ∧ ∃ s', r.source = .persistence s' ∧
      s'.machine.attempt = s.machine.attempt + 1 ∧ (∀ w d, s'.machine.phase ≠ .awaiting w d) ∧
      r.hub.current = succeeded
  have hdue : ∀ t s', U t s' → ∃ d, s'.due = some d ∧ t ≤ d := by
    rintro t s' ⟨w, hunder⟩
    exact ⟨_, hunder.due, hunder.timely⟩
  have hpass : ∀ t later s' d, U t s' → s'.due = some d → later ≤ d → U later s' := by
    rintro t later s' d ⟨w, hunder⟩ hd hle
    obtain rfl := Option.some.inj (hunder.due.symm.trans hd)
    exact ⟨w, hunder.pass hle⟩
  have hchange : ∀ t s' j, U t s' → Journal.Elsewhere settings.id s'.journal j → U t { s' with journal := j } := by
    rintro t s' j ⟨w, hunder⟩ -
    exact ⟨w, { hunder with }⟩
  have hact : ∀ t s' d r, Leads (Journal.Elsewhere settings.id) feed now p t r → r.Unexhausted →
      r.source = .persistence s' → U t s' → s'.due = some d → U d (s'.act d).1 ∨ D d (r.act feed d) := by
    rintro t s' d r hpr hur hs' ⟨w, hunder⟩ hd
    obtain rfl := Option.some.inj (hunder.due.symm.trans hd)
    obtain ⟨s₁, hs₁, hset, hintact⟩ := reaches_intact hid hj (h.trans hpr)
    obtain rfl : s' = s₁ := by simpa using hs'.symm.trans hs₁
    obtain hunder' | ⟨hattempt, hphase, hup⟩ :=
      hunder.act (by rw [hset]; exact hid) (hintact (hur s' hs')) (hur s' hs')
    · exact Or.inl hunder'
    · refine Or.inr ⟨hunder.wake_le, _, source_act hs' feed _, hattempt, hphase, ?_⟩
      rw [act_persistence hs', hup, current_follow_some]
  obtain hr | ⟨s', hs', w, hunder⟩ | ⟨t, r, hpr, hrq, ht, s', hs', hup⟩ :=
    leads_until hp (show U now _ from ⟨_, hway⟩) hdue hpass hchange hact hq hu
  · exact Or.inl hr
  · exact Or.inr (Or.inl ⟨s', w, hs', hunder⟩)
  · exact Or.inr (Or.inr ⟨t, r, s', ht, hpr, hrq, hs', hup⟩)

/-- A probe that has its records to itself reports no loss and has no entry refused. Every round trip
begins with a session `s.begun t`; if none of its calls up to the report is faulted, and they fit into
the timeout together, then it makes the probe go up, after any run and along any further run. -/
theorem no_false_alarm (hid : settings.id ≠ "") (ht : 0 < settings.timeout.millis)
    (hj : journal.PrivateTo settings.id)
    (h : Leads (Journal.Elsewhere settings.id) feed start
      (persistence settings journal faults start) now p) :
    (persistence settings journal faults start).source =
      .persistence ((Session.fresh settings journal faults start).begun start) ∧
    ∃ s, p.source = .persistence s ∧
      (p.Unexhausted → ∀ t,
        (∀ e r, (s.event t).1 = some e → s.machine.finding? e = some (.report r) → r.Lossless) ∧
        (s.taken = false → ∀ w d seq payload, s.machine.phase = .awaiting w d → w.call = .append seq payload →
          ∃ j, s.journal.append (Session.stampAt t) w.id seq payload = .ok j)) ∧
      (∀ t, (s.act t).1.machine.attempt ≠ s.machine.attempt → (s.act t).1 = s.begun t) ∧
      ∀ s₀ : Session, s = s₀.begun now → (∀ k ∈ Session.exchange, (s₀.next k).effect = .works) →
        s₀.span Session.exchange < settings.timeout.timer →
        ∀ later q, Leads (Journal.Elsewhere settings.id) feed now p later q → q.Unexhausted →
          q.running = true → Settled (due feed) later q → now + s₀.span Session.exchange ≤ later →
          UpBy (Journal.Elsewhere settings.id) feed (s₀.machine.attempt + 1)
            (now + s₀.span Session.exchange) now p later q := by
  have ht : settings.timeout.millis ≠ 0 := Nat.ne_of_gt ht
  obtain ⟨s, hs, hset, hintact⟩ := reaches_intact hid hj h
  have hid' : s.machine.settings.id ≠ "" := by rwa [hset]
  refine ⟨?_, s, hs, fun hu t => ?_, fun t ha => Session.act_begun (by rwa [hset]) ha, ?_⟩
  · rw [persistence, source_follow, Session.start_begun ht]
    rfl
  · have hintact := hintact (hu s hs)
    exact ⟨fun e r he hr => hintact.sound.lossless hid' (hintact.counts (hu s hs)) (Session.happening he) hr,
      fun htaken w d seq payload hp hc => (htaken ▸ hintact.sound).append hid' hp hc _⟩
  · rintro s₀ rfl hf hspan later q hq hu hr hsettled hlater
    obtain hr' | ⟨s', w, hs', hunder⟩ | hup := leads_up hid hj h hs hf hspan hq hu
    · simp [hr] at hr'
    · have := hsettled s'.wake (by rw [due_persistence hs', hunder.due, hr]; rfl)
      have := hunder.wake_le
      omega
    · exact hup

/-- With an empty journal and no faults the first round trip makes a probe go up at once. -/
theorem up_at_once :
    let p := persistence ⟨"p", .seconds 5, .seconds 10⟩ .empty .none 0
    ∃ q, Leads (Journal.Elsewhere "p") (.standalone "n") 0 p 1 q ∧
      UpBy (Journal.Elsewhere "p") (.standalone "n") 1 0 0 p 1 q := by
  intro p
  have hid : (⟨"p", .seconds 5, .seconds 10⟩ : Settings).id ≠ "" := by decide
  have hstart : Leads (Journal.Elsewhere "p") (.standalone "n") 0 p 0 p := .refl
  obtain ⟨hs, s, hs', -, -, hup⟩ := no_false_alarm hid (by decide) .empty hstart
  obtain rfl := Source.persistence.inj (hs'.symm.trans hs)
  -- Four calls act at time zero and the worker exits, then nothing is due before the next round trip.
  let step (p : Probe) : Probe := p.act (.standalone "n") 0
  have hfive : Leads (Journal.Elsewhere "p") (.standalone "n") 0 p 0 (step (step (step (step (step p))))) :=
    Reaches.act (d := 0) (Reaches.act (d := 0) (Reaches.act (d := 0) (Reaches.act (d := 0)
      (Reaches.act (d := 0) .refl rfl) rfl) rfl) rfl) rfl
  have hdue : ∀ d, (step (step (step (step (step p))))).due (.standalone "n") = some d → d = 10000 :=
    fun d hd => (Option.some.inj hd).symm
  have hpass : Leads (Journal.Elsewhere "p") (.standalone "n") 0 p 1 (step (step (step (step (step p))))) :=
    hfive.pass (by decide) fun d hd => by rw [hdue d hd]; decide
  refine ⟨_, hpass, hup _ rfl (by decide) (by decide) 1 _ hpass (fun s hs => ?_) rfl
    (fun d hd => by rw [hdue d hd]; decide) (by decide)⟩
  obtain rfl := Source.persistence.inj hs
  unfold Session.Unexhausted
  decide

end HealthSignal.Probe
