import HealthSignal.Proofs.RoundTrip.Discipline
import HealthSignal.Proofs.RoundTrip.NoFalseAlarm

/-! What round trips leave in a journal that nobody else writes to. The first one only adds to the records; a prune
leaves the marker and the snapshot of its own round trip, which the next one is to recover, and nothing else. -/
namespace HealthSignal.RoundTrip
open Journal (Ledger)

def Newest (seq : Nat) (payload : String) (rs : List Record) : Prop :=
  ∃ r, rs.getLast? = some r ∧ r.seq = seq ∧ r.payload = payload

theorem newest_concat (rs : List Record) (r : Record) : Newest r.seq r.payload (rs ++ [r]) :=
  ⟨r, List.getLast?_concat, rfl, rfl⟩

/-- What a round trip has left in the records by a stage. Only a later one than the first prunes. -/
def Stage.Left (attempt : Nat) (marker : String) (es ss : List Record) : Stage → Prop
  | .saving seq => Newest seq marker es
  | .pruning seq => 1 < attempt ∧ Newest seq marker es ∧ Newest seq marker ss
  | .loading | .replaying _ | .appending _ _ => True

namespace Worker
variable {w : Worker} {stage : Stage} {id : String} {j : Journal} {es ss : List Record} {stamp : Nat}

/-- A failed call leads to no stage that has left anything. -/
theorem left_fails (w : Worker) (e : JournalError) (h : (w.resume (.error e)).stage? = some stage) (attempt : Nat)
    (marker : String) (es ss : List Record) : stage.Left attempt marker es ss := by
  obtain ⟨wid, n, expect, s⟩ := w
  cases s with
  | loading =>
    obtain rfl := Option.some.inj h
    trivial
  | _ => cases h

/-- A call that reaches the journal only adds to the records, and leaves there what its stage and the next one
know of. -/
theorem left_works (hid : w.id ≠ "") (hledger : Ledger w.id j es ss) (hs : w.stage.Sound es ss)
    (hleft : w.stage.Left w.attempt w.marker es ss) (hstamp : stamp < UInt64.size)
    (hseq : ∀ seq, w.call.seq? = some seq → seq < UInt64.size) :
    ∃ es' ss', Ledger w.id (w.performed stamp j) es' ss' ∧ es <+: es' ∧ ss <+: ss' ∧
      w.stage.Left w.attempt w.marker es' ss' ∧
      ∀ stage, (w.resume (w.answered stamp j)).stage? = some stage →
        stage.Left w.attempt w.marker es' ss' := by
  obtain ⟨wid, attempt, expect, stage⟩ := w
  cases stage with
  | loading =>
    refine ⟨es, ss, hledger, List.prefix_refl _, List.prefix_refl _, trivial, fun stage hstage => ?_⟩
    obtain rfl := Option.some.inj hstage
    trivial
  | replaying recovered =>
    refine ⟨es, ss, hledger, List.prefix_refl _, List.prefix_refl _, trivial, fun stage hstage => ?_⟩
    simp only [resume, resumeAt] at hstage
    split at hstage
    · cases hstage
    · obtain rfl := Option.some.inj hstage
      trivial
  | appending recovered seq =>
    obtain ⟨hok, hledger'⟩ := perform_appending attempt expect recovered hledger hid hs.2.1 (hseq seq rfl) hstamp
    refine ⟨_, ss, hledger', List.prefix_append _ _, List.prefix_refl _, trivial, fun stage hstage => ?_⟩
    rw [hok] at hstage
    cases recovered with
    | ok n =>
      obtain rfl := Option.some.inj hstage
      exact newest_concat es _
    | error f => cases hstage
  | saving seq =>
    obtain ⟨hok, hledger'⟩ := perform_saving attempt expect hledger hid hs.2 (hseq seq rfl) hstamp
    refine ⟨es, _, hledger', List.prefix_refl _, List.prefix_append _ _, hleft, fun stage hstage => ?_⟩
    rw [hok] at hstage
    by_cases hattempt : attempt > 1
    · obtain rfl : Stage.pruning seq = stage := by
        simpa [resume, resumeAt, finish, Progress.stage?, hattempt] using hstage
      exact ⟨hattempt, hleft, newest_concat ss _⟩
    · simp [resume, resumeAt, finish, Progress.stage?, hattempt] at hstage
  | pruning seq => exact hs.elim

/-- A prune leaves the newest entry and the newest snapshot, if both have its number. -/
theorem performed_pruning {seq : Nat} {payload : String} (hledger : Ledger w.id j es ss)
    (hw : w.stage = .pruning seq) (hseq : seq < UInt64.size) (he : Newest seq payload es)
    (hx : Newest seq payload ss) (stamp : Nat) :
    ∃ e ∈ es, ∃ x ∈ ss, Ledger w.id (w.performed stamp j) [e] [x] ∧
      (e.seq = seq ∧ e.payload = payload) ∧ x.seq = seq ∧ x.payload = payload := by
  obtain ⟨e, hlast, rfl, hpayload⟩ := he
  obtain ⟨x, hlast', hx⟩ := hx
  have hperformed : w.performed stamp j = (j.prune w.id e.seq).1 := by
    rw [performed, call, hw]
    rfl
  have hpruned := hledger.prune hseq
  rw [hledger.entries.filter_last hlast, ← hx.1, hledger.snapshots.filter_last hlast', hx.1] at hpruned
  exact ⟨e, List.mem_of_getLast? hlast, x, List.mem_of_getLast? hlast', hperformed ▸ hpruned, ⟨rfl, hpayload⟩, hx⟩

end Worker

namespace Machine
variable {m : Machine} {j j' : Journal} {es₀ ss₀ es ss : List Record} {calls : List Call} {w : Worker}

/-- What a machine that began with the records `es₀` and `ss₀` keeps of them, and what its worker has done. -/
structure Keeps (es₀ ss₀ : List Record) (calls : List Call) (m : Machine) (es ss : List Record) : Prop where
  first : m.attempt ≤ 1 → es₀ <+: es ∧ ss₀ <+: ss
  worker : ∀ w, m.worker? = some w →
    w.attempt = m.attempt ∧ w.stage.Left w.attempt w.marker es ss ∧
      (w.stage.calls w.marker).reverse <+: calls

/-- A machine without a worker has only the records to keep. -/
theorem Keeps.idle {m' : Machine} (hw : m'.worker? = none) (hm : m'.attempt ≤ 1 → es₀ <+: es ∧ ss₀ <+: ss) :
    m'.Keeps es₀ ss₀ calls es ss :=
  ⟨hm, fun w h => by simp [hw] at h⟩

theorem Keeps.begun (hm : m.attempt + 1 ≤ 1 → es₀ <+: es ∧ ss₀ <+: ss) (now : Nat) :
    (m.begun now).Keeps es₀ ss₀ (.load :: calls) es ss := by
  refine ⟨hm, fun w hw => ?_⟩
  obtain rfl := Option.some.inj hw
  exact ⟨rfl, trivial, calls, rfl⟩

/-- What a call may do to the records of a worker that has not reported. -/
theorem Sound.left {taken : Bool} (h : m.Sound j taken) (hledger : Ledger m.settings.id j es ss) (hid : m.settings.id ≠ "")
    (hm : m.Counts) {d : Nat} (hp : m.phase = .awaiting w d) (hleft : w.stage.Left w.attempt w.marker es ss)
    {answers : Machine.Answers} (he : Happening m j taken (.answer answers) j') :
    ∃ es' ss', Ledger m.settings.id j' es' ss' ∧ es <+: es' ∧ ss <+: ss' ∧ w.stage.Left w.attempt w.marker es' ss' ∧
      ∀ stage, (w.resume (answers w.call)).stage? = some stage → stage.Left w.attempt w.marker es' ss' := by
  obtain ⟨es₁, ss₁, hledger₁, -, hphase⟩ := h
  have hphase := hphase he.untaken
  obtain rfl := hledger₁.entries.unique hledger.entries
  obtain rfl := hledger₁.snapshots.unique hledger.snapshots
  rw [hp] at hphase
  obtain ⟨hwid, -, hstage⟩ := hphase
  have hw : m.worker? = some w := by rw [Machine.worker?, hp]
  cases he with
  | works _ hw' hstamp =>
    obtain rfl := Option.some.inj (hw.symm.trans hw')
    rw [← hwid] at hid hledger ⊢
    exact Worker.left_works hid hledger hstage hleft hstamp (hm w hw)
  | fails e =>
    exact ⟨es₁, ss₁, hledger, List.prefix_refl _, List.prefix_refl _, hleft,
      fun stage hnext => w.left_fails e hnext _ _ _ _⟩

theorem Keeps.grow {es' ss' : List Record} (h : m.Keeps es₀ ss₀ calls es ss) (hes : es <+: es') (hss : ss <+: ss')
    (hm : m.attempt ≤ 1) : es₀ <+: es' ∧ ss₀ <+: ss' :=
  ⟨(h.first hm).1.trans hes, (h.first hm).2.trans hss⟩

/-- The worker that goes on has left what its stage says. -/
theorem Keeps.resumed {es' ss' : List Record} {stage : Stage} {answers : Machine.Answers}
    (h : m.Keeps es₀ ss₀ calls es ss) (hw : m.worker? = some w)
    (hr : (w.resume (answers w.call)).stage? = some stage) (hleft : stage.Left w.attempt w.marker es' ss') :
    let w' : Worker := { w with stage := stage }
    w'.attempt = m.attempt ∧ w'.stage.Left w'.attempt w'.marker es' ss' ∧
      (w'.stage.calls w'.marker).reverse <+: w'.call :: calls := by
  obtain ⟨hattempt, -, hcalls⟩ := h.worker w hw
  have hnext : (stage.calls w.marker).reverse =
      Worker.callOf w.marker stage :: (w.stage.calls w.marker).reverse := by
    rw [Worker.calls_resume hr, List.reverse_concat]
  refine ⟨hattempt, hleft, ?_⟩
  show (stage.calls w.marker).reverse <+: Worker.callOf w.marker stage :: calls
  rw [hnext]
  exact List.cons_prefix_cons.mpr ⟨rfl, hcalls⟩

/-- What a call has done once the worker goes on after it. -/
theorem Keeps.goesOn {m' : Machine} {stage : Stage} {answers : Machine.Answers} {d : Nat} {taken : Bool}
    (h : m.Keeps es₀ ss₀ calls es ss) (hledger : Ledger m.settings.id j es ss) (hs : m.Sound j taken)
    (hid : m.settings.id ≠ "") (hm : m.Counts) (hp : m.phase = .awaiting w d)
    (he : Happening m j taken (.answer answers) j') (hstage : (w.resume (answers w.call)).stage? = some stage)
    (hattempt : m'.attempt = m.attempt) (hw' : m'.worker? = some { w with stage := stage }) :
    ∃ es' ss', Ledger m.settings.id j' es' ss' ∧
      m'.Keeps es₀ ss₀ ((m'.worker?.map Worker.call).toList ++ calls) es' ss' := by
  have hw : m.worker? = some w := by rw [Machine.worker?, hp]
  obtain ⟨es', ss', hledger', hes, hss, -, hleft⟩ := hs.left hledger hid hm hp (h.worker w hw).2.1 he
  refine ⟨es', ss', hledger', fun hfirst => h.grow hes hss (hattempt ▸ hfirst), fun u hu => ?_⟩
  obtain rfl := Option.some.inj (hw'.symm.trans hu)
  rw [hw', hattempt]
  exact h.resumed hw hstage (hleft stage hstage)

/-- A worker that prunes has reported success. -/
theorem Sound.pruning (h : m.Sound j false) (hw : m.worker? = some w) {seq : Nat} (hstage : w.stage = .pruning seq) :
    ∃ d, m.phase = .draining w d ∧ w.id = m.settings.id ∧ m.expect = ⟨some seq, some seq⟩ := by
  cases hp : m.phase with
  | awaiting w' d =>
    obtain rfl : w' = w := by simpa [Machine.worker?, hp] using hw
    obtain ⟨es, ss, -, -, hphase⟩ := h
    have hphase := hphase rfl
    rw [hp, Phase.Sound, hstage] at hphase
    exact hphase.2.2.elim
  | draining w' d =>
    obtain rfl : w' = w := by simpa [Machine.worker?, hp] using hw
    obtain ⟨hwid, seq', hstage', hexpect⟩ := h.draining hp
    obtain rfl : seq' = seq := by simpa [hstage'] using hstage
    exact ⟨d, rfl, hwid, hexpect⟩
  | leaving | delaying | stopped => simp [Machine.worker?, hp] at hw

/-- What a prune that the journal takes leaves there; it is not of the first round trip. -/
theorem Keeps.pruned (h : m.Keeps es₀ ss₀ calls es ss) (hledger : Ledger m.settings.id j es ss) (hs : m.Sound j false)
    (hm : m.Counts) {d : Nat} (hp : m.phase = .draining w d) (stamp : Nat) :
    1 < m.attempt ∧ ∃ seq e x, e ∈ es ∧ x ∈ ss ∧ w.stage = .pruning seq ∧ m.expect = ⟨some seq, some seq⟩ ∧
      Ledger m.settings.id (w.performed stamp j) [e] [x] ∧ (e.seq = seq ∧ e.payload = w.marker) ∧
      x.seq = seq ∧ x.payload = w.marker := by
  have hw : m.worker? = some w := by rw [Machine.worker?, hp]
  obtain ⟨hattempt, hleft, -⟩ := h.worker w hw
  obtain ⟨hwid, seq, hstage, hexpect⟩ := hs.draining hp
  have hseq : seq < UInt64.size := hm w hw seq (by rw [Worker.call, hstage]; rfl)
  rw [hstage] at hleft
  obtain ⟨hlater, hes, hss⟩ := hleft
  rw [← hwid] at hledger ⊢
  obtain ⟨e, he, x, hx, hpruned, hentry, hsnapshot⟩ := w.performed_pruning hledger hstage hseq hes hss stamp
  exact ⟨hattempt ▸ hlater, seq, e, x, he, hx, hstage, hexpect, hpruned, hentry, hsnapshot⟩

/-- A worker has left what it had left before its call was taken. -/
theorem Keeps.take {stamp : Nat} (h : m.Keeps es₀ ss₀ calls es ss) (hledger : Ledger m.settings.id j es ss)
    (hs : m.Sound j false) (hid : m.settings.id ≠ "") (hm : m.Counts) (hw : m.worker? = some w)
    (hstamp : stamp < UInt64.size) :
    ∃ es' ss', Ledger m.settings.id (w.performed stamp j) es' ss' ∧ m.Keeps es₀ ss₀ calls es' ss' := by
  obtain ⟨hattempt, hleft, hcalls⟩ := h.worker w hw
  have hkeeps : ∀ {es' ss'}, (m.attempt ≤ 1 → es₀ <+: es' ∧ ss₀ <+: ss') → w.stage.Left w.attempt w.marker es' ss' →
      m.Keeps es₀ ss₀ calls es' ss' := fun hfirst hleft => ⟨hfirst, fun w' hw' => by
    obtain rfl := Option.some.inj (hw.symm.trans hw')
    exact ⟨hattempt, hleft, hcalls⟩⟩
  cases hp : m.phase with
  | awaiting w' d =>
    obtain rfl : w' = w := by simpa [Machine.worker?, hp] using hw
    obtain ⟨es', ss', hledger', hes, hss, hleft', -⟩ := hs.left hledger hid hm hp hleft (.works rfl hw hstamp)
    exact ⟨es', ss', hledger', hkeeps (h.grow hes hss) hleft'⟩
  | draining w' d =>
    obtain rfl : w' = w := by simpa [Machine.worker?, hp] using hw
    obtain ⟨hlater, seq, e, x, -, -, hstage, -, hpruned, hentry, hsnapshot⟩ := h.pruned hledger hs hm hp _
    refine ⟨[e], [x], hpruned, hkeeps (fun hfirst => by omega) ?_⟩
    rw [hstage]
    exact ⟨hattempt ▸ hlater, ⟨e, rfl, hentry⟩, x, rfl, hsnapshot⟩
  | leaving | delaying | stopped => simp [Machine.worker?, hp] at hw

structure Awaits (m m' : Machine) : Prop where
  settings : m'.settings = m.settings
  attempt : m'.attempt = m.attempt
  expect : m'.expect = m.expect

theorem handle_draining {d : Nat} (hp : m.phase = .draining w d) (now : Nat) (e : Event) :
    m.Awaits (m.handle now e).1 ∧ (m.handle now e).1.worker? = none := by
  cases e
  all_goals
    simp only [Machine.handle, Machine.answer, Machine.panic, Machine.exit, Machine.elapse, hp]
    exact ⟨⟨rfl, rfl, rfl⟩, rfl⟩

theorem handle_idle (hw : m.worker? = none) (now : Nat) (e : Event) :
    m.attempt < (m.handle now e).1.attempt ∨ m.Awaits (m.handle now e).1 ∧ (m.handle now e).1.worker? = none := by
  have hturn := m.handle_turn now e
  generalize (m.handle now e).1 = m', m.finding? e = f at hturn
  cases hturn with
  | begin | beginInVain => exact Or.inl (Nat.lt_succ_self _)
  | gone | crash | stop => exact Or.inr ⟨⟨rfl, rfl, rfl⟩, rfl⟩
  | idle => exact Or.inr ⟨⟨rfl, rfl, rfl⟩, hw⟩
  | ask hp | reportAndDrain hp | reportAndLeave hp | quit hp | breakOff hp | vanish hp | timeout hp
  | leave hp | dismiss hp => simp [Machine.worker?, hp] at hw

theorem Keeps.handle {taken : Bool} (h : m.Keeps es₀ ss₀ calls es ss) (hledger : Ledger m.settings.id j es ss)
    (hs : m.Sound j taken) (hid : m.settings.id ≠ "") (hm : m.Counts) {e : Event} (he : Happening m j taken e j')
    (now : Nat) :
    ∃ es' ss', Ledger m.settings.id j' es' ss' ∧
      (m.handle now e).1.Keeps es₀ ss₀ (((m.handle now e).1.worker?.map Worker.call).toList ++ calls) es' ss' := by
  have hturn := m.handle_turn now e
  generalize (m.handle now e).1 = m', m.finding? e = f at hturn
  cases hturn with
  | ask hp hr | reportAndDrain hp hr => exact h.goesOn hledger hs hid hm hp he (by rw [hr]; rfl) rfl rfl
  | @reportAndLeave w d answers r hp hr | @quit w d answers hp hr =>
    have hw : m.worker? = some w := by rw [Machine.worker?, hp]
    obtain ⟨es', ss', hledger', hes, hss, -⟩ := hs.left hledger hid hm hp (h.worker w hw).2.1 he
    exact ⟨es', ss', hledger', .idle rfl (h.grow hes hss)⟩
  | @leave w d e hp he' =>
    cases he with
    | works htaken hw hstamp =>
      subst htaken
      obtain rfl := Option.some.inj ((show m.worker? = some w by rw [Machine.worker?, hp]).symm.trans hw)
      obtain ⟨hlater, _, e, x, -, -, -, -, hpruned, -⟩ := h.pruned hledger hs hm hp _
      exact ⟨[e], [x], hpruned, .idle rfl fun hfirst => absurd hlater (Nat.not_lt.mpr hfirst)⟩
    | fails | panics => exact ⟨es, ss, hledger, .idle rfl h.first⟩
    | _ => simp at he'
  | begin hp _ =>
    cases he
    exact ⟨es, ss, hledger, .begun (fun hn => h.first (Nat.le_of_succ_le hn)) now⟩
  | beginInVain =>
    cases he
    exact ⟨es, ss, hledger, .idle rfl fun hn => h.first (Nat.le_of_succ_le hn)⟩
  | dismiss _ he' | gone _ he' | crash _ he' =>
    obtain rfl := he.same (by obtain rfl | rfl := he' <;> simp)
    exact ⟨es, ss, hledger, .idle rfl h.first⟩
  | breakOff | vanish | timeout | stop =>
    cases he
    exact ⟨es, ss, hledger, .idle rfl h.first⟩
  | idle hw =>
    cases he with
    | works _ hw' => cases hw.symm.trans hw'
    | _ => exact ⟨es, ss, hledger, .idle hw h.first⟩

end Machine

namespace Session
variable {s : Session} {es₀ ss₀ : List Record}

def Keeps (es₀ ss₀ : List Record) (s : Session) : Prop :=
  ∃ es ss, Ledger s.machine.settings.id s.journal es ss ∧
    s.machine.Keeps es₀ ss₀ (s.calls.map Prod.snd) es ss

theorem map_called (o : Option Worker) (now : Nat) :
    (o.map fun w => (now, w.call)).toList.map Prod.snd = (o.map Worker.call).toList := by
  cases o <;> rfl

theorem Keeps.act (h : s.Keeps es₀ ss₀) (hs : s.Intact) (hid : s.machine.settings.id ≠ "") (hu : s.Unexhausted)
    (now : Nat) : (s.act now).1.Keeps es₀ ss₀ := by
  obtain ⟨es, ss, hledger, hkeeps⟩ := h
  obtain ⟨e, he, hact⟩ | ⟨w, -, hw, htaken, hj, hact⟩ := s.act_cases now
  · obtain ⟨es', ss', hledger', hkeeps'⟩ := hkeeps.handle hledger hs.sound hid (hs.counts hu) (happening he) now
    refine ⟨es', ss', ?_, ?_⟩
    · rw [settings_act, hact, journal_issue]
      exact hledger'
    · rw [calls_act_eq he, List.map_append, map_called, hact, machine_issue]
      exact hkeeps'
  · rw [hact, hj]
    exact hkeeps.take hledger (htaken ▸ hs.sound) hid (hs.counts hu) hw (stampAt_lt now)

theorem Keeps.elsewhere (h : s.Keeps es₀ ss₀) {j : Journal}
    (hj : Journal.Elsewhere s.machine.settings.id s.journal j) : Keeps es₀ ss₀ { s with journal := j } := by
  obtain ⟨es, ss, hledger, hkeeps⟩ := h
  exact ⟨es, ss, hledger.elsewhere hj, hkeeps⟩

theorem Keeps.stop (h : s.Keeps es₀ ss₀) : s.stop.Keeps es₀ ss₀ := by
  obtain ⟨es, ss, hledger, hkeeps⟩ := h
  exact ⟨es, ss, hledger, .idle rfl hkeeps.first⟩

theorem Keeps.start {settings : Settings} {j : Journal} (hledger : Ledger settings.id j es₀ ss₀) (faults : Faults)
    (now : Nat) : (Session.start settings j faults now).1.Keeps es₀ ss₀ := by
  have hrefl : es₀ <+: es₀ ∧ ss₀ <+: ss₀ := ⟨List.prefix_refl _, List.prefix_refl _⟩
  refine ⟨es₀, ss₀, ?_, ?_⟩
  · rw [machine_start, Machine.settings_dispatch, Session.start, journal_issue]
    exact hledger
  · rw [machine_start]
    by_cases hz : (Machine.new settings).settings.timeout.millis = 0
    · rw [Machine.dispatch_zero hz]
      exact .idle rfl fun _ => hrefl
    · have hz' : settings.timeout.millis ≠ 0 := hz
      rw [Machine.dispatch_pos hz, Session.start_begun hz']
      exact .begun (fun _ => hrefl) now

def marker (s : Session) : String :=
  (Worker.start s.machine.settings.id s.machine.attempt s.machine.expect).marker

/-- A prune in progress reaches the journal before anything else happens, whether or not it is answered. -/
def Prunes (s : Session) : Prop :=
  s.workerFirst = true ∧ (s.fault.effect = .works ∨ s.fault.effect = .unanswered) ∧
    ∃ w seq, s.machine.worker? = some w ∧ w.call = .prune seq

/-- The round trip that the session is at has written its marker and its snapshot with `seq`, which the next one
must find, and no other records are left. -/
structure Cleared (s : Session) (seq : Nat) (e x : Record) : Prop where
  wrote : [.prune seq, .save seq s.marker, .append seq s.marker] <+: s.calls.map Prod.snd
  expect : s.machine.expect = ⟨some seq, some seq⟩
  ledger : Ledger s.machine.settings.id s.journal [e] [x]
  entry : e.seq = seq ∧ e.payload = s.marker
  snapshot : x.seq = seq ∧ x.payload = s.marker

theorem Cleared.congr {s' : Session} {seq : Nat} {e x : Record} (h : s.Cleared seq e x)
    (hm : s.machine.Awaits s'.machine) (hcalls : s'.calls = s.calls) (hj : s'.journal = s.journal) :
    s'.Cleared seq e x := by
  have hmarker : s'.marker = s.marker := by rw [marker, marker, hm.settings, hm.attempt, hm.expect]
  exact ⟨by rw [hcalls, hmarker]; exact h.wrote, hm.expect.trans h.expect, by rw [hm.settings, hj]; exact h.ledger,
    hmarker ▸ h.entry, hmarker ▸ h.snapshot⟩

/-- What a call that the journal takes does to it, whether or not it is answered. -/
theorem journal_act {w : Worker} (hfirst : s.workerFirst = true)
    (heffect : s.fault.effect = .works ∨ s.fault.effect = .unanswered) (hw : s.machine.worker? = some w) (now : Nat) :
    (s.act now).1.journal = w.performed (stampAt now) s.journal := by
  have hevent : (s.event now).2 = w.performed (stampAt now) s.journal := by
    obtain heffect | heffect := heffect
    all_goals
      simp only [event, hfirst, if_true, hw, heffect]
      rfl
  obtain ⟨e, -, hact⟩ | ⟨_, -, -, -, -, hact⟩ := s.act_cases now
  · rw [hact, journal_issue, hevent]
  · rw [hact, hevent]

/-- A worker that prunes makes no further call, and its machine goes on expecting the same. -/
theorem act_draining {w : Worker} {d : Nat} (hp : s.machine.phase = .draining w d) (now : Nat) :
    s.machine.Awaits (s.act now).1.machine ∧ (s.act now).1.calls = s.calls := by
  obtain ⟨e, he, hact⟩ | ⟨_, -, -, -, -, hact⟩ := s.act_cases now
  · obtain ⟨hawaits, hw⟩ := s.machine.handle_draining hp now e
    have hcalls := calls_act_eq he
    rw [hw] at hcalls
    refine ⟨?_, hcalls⟩
    rw [hact, machine_issue]
    exact hawaits
  · rw [hact]
    exact ⟨⟨rfl, rfl, rfl⟩, rfl⟩

/-- A prune reaches the journal only after a round trip that was not the first. -/
theorem Keeps.cleared (h : s.Keeps es₀ ss₀) (hs : s.Intact) (hu : s.Unexhausted) (hprunes : s.Prunes) (now : Nat) :
    1 < s.machine.attempt ∧ ∃ seq e x, (s.act now).1.Cleared seq e x ∧
      ∃ es ss, Ledger s.machine.settings.id s.journal es ss ∧ e ∈ es ∧ x ∈ ss := by
  obtain ⟨hfirst, heffect, w, seq, hw, hcall⟩ := hprunes
  obtain ⟨es, ss, hledger, hkeeps⟩ := h
  obtain ⟨hattempt, -, hcalls⟩ := hkeeps.worker w hw
  have hstage : w.stage = .pruning seq := by
    obtain ⟨wid, n, expect, stage⟩ := w
    cases stage <;> simp_all [Worker.call, Worker.callOf]
  have htaken := ((workerFirst_busy hfirst).2 (by rw [hw]; rfl)).2
  have hsound : s.machine.Sound s.journal false := htaken ▸ hs.sound
  obtain ⟨d, hp, hwid, hexpect⟩ := hsound.pruning hw hstage
  obtain ⟨hlater, seq', e, x, he, hx, hstage', -, hpruned, hentry, hsnapshot⟩ :=
    hkeeps.pruned hledger hsound (hs.counts hu) hp (stampAt now)
  obtain rfl : seq = seq' := Stage.pruning.inj (hstage.symm.trans hstage')
  obtain ⟨⟨hsettings', hattempt', hexpect'⟩, hcalls'⟩ := act_draining hp now
  have hmarker : w.marker = (s.act now).1.marker := by
    rw [marker, hsettings', hattempt', hexpect', Worker.marker, Worker.marker, hwid, hattempt]
    rfl
  rw [hmarker, hstage] at hcalls
  rw [hmarker] at hentry hsnapshot
  refine ⟨hlater, seq, e, x, ⟨?_, hexpect'.trans hexpect, ?_, hentry, hsnapshot⟩, es, ss, hledger, he, hx⟩
  · rw [hcalls']
    exact List.IsPrefix.trans ⟨[.replay, .load], rfl⟩ hcalls
  · rw [hsettings', journal_act hfirst heffect hw]
    exact hpruned

/-- Between two round trips nothing happens but that the worker exits and the next round trip begins. -/
theorem act_idle (hw : s.machine.worker? = none) (now : Nat) :
    s.machine.attempt < (s.act now).1.machine.attempt ∨ s.machine.Awaits (s.act now).1.machine ∧
      (s.act now).1.machine.worker? = none ∧ (s.act now).1.calls = s.calls ∧ (s.act now).1.journal = s.journal := by
  have hj : (s.event now).2 = s.journal := by
    unfold event
    split
    · rw [hw]
    · rfl
  obtain ⟨e, he, hact⟩ | ⟨w, -, hw', -⟩ := s.act_cases now
  · have hcalls := calls_act_eq he
    have hjournal : (s.act now).1.journal = s.journal := by rw [hact, journal_issue, hj]
    have hmachine : (s.act now).1.machine = (s.machine.handle now e).1 := by rw [hact, machine_issue]
    rw [hmachine]
    obtain hlt | ⟨hawaits, hw'⟩ := s.machine.handle_idle hw now e
    · exact Or.inl hlt
    · rw [hw'] at hcalls
      exact Or.inr ⟨hawaits, hw', hcalls, hjournal⟩
  · cases hw.symm.trans hw'

def roundTrip : List CallKind := exchange ++ [.prune]

theorem span_roundTrip (s : Session) : s.span roundTrip = s.span exchange + (s.next .prune).wait.timer := by
  simp only [roundTrip, exchange, List.cons_append, List.nil_append, span, List.foldr_cons, List.foldr_nil]
  omega

structure Clearing (s : Session) (now attempt limit : Nat) (w : Worker) : Prop where
  phase : ∃ d, s.machine.phase = .draining w d ∧ limit ≤ d
  attempt_eq : s.machine.attempt = attempt
  call : ∃ seq, w.call = .prune seq
  effect : s.fault.effect = .works
  untaken : s.taken = false
  timely : now ≤ limit
  ends : s.wake = limit

section
variable {now attempt limit : Nat} {w : Worker}

theorem Clearing.prunes (h : s.Clearing now attempt limit w) : s.Prunes ∧ s.due = some limit := by
  obtain ⟨d, hp, hd⟩ := h.phase
  obtain ⟨seq, hcall⟩ := h.call
  have hw : s.machine.worker? = some w := by rw [Machine.worker?, hp]
  have hwake : s.wake? = some limit := by simp [wake?, hp, h.effect, h.untaken, h.ends]
  have hfirst : s.workerFirst = true := by simpa [workerFirst, hwake, hp] using hd
  exact ⟨⟨hfirst, Or.inl h.effect, w, seq, hw, hcall⟩, by rw [due, if_pos hfirst, hwake]⟩

/-- The worker is done once its prune is answered. -/
theorem Clearing.worker_act (h : s.Clearing now attempt limit w) (t : Nat) :
    (s.act t).1.machine.attempt = attempt ∧ (s.act t).1.machine.worker? = none := by
  obtain ⟨d, hp, -⟩ := h.phase
  obtain ⟨⟨hfirst, -⟩, -⟩ := h.prunes
  have hw : s.machine.worker? = some w := by rw [Machine.worker?, hp]
  have hevent : s.event t = (some (.answer fun c => (c.perform w.id (stampAt t) s.journal).1),
      w.performed (stampAt t) s.journal) := by
    simp only [event, hfirst, if_true, hw, h.effect]
    rfl
  obtain ⟨hawaits, hw'⟩ := s.machine.handle_draining hp t (.answer fun c => (c.perform w.id (stampAt t) s.journal).1)
  rw [act_of_event hevent, machine_issue]
  exact ⟨hawaits.attempt.trans h.attempt_eq, hw'⟩

theorem clearing_issue {d seq : Nat} (hp : s.machine.phase = .draining w d) (hcall : w.call = .prune seq)
    (ha : s.machine.attempt = attempt) (hf : (s.next .prune).effect = .works)
    (hd : now + (s.next .prune).wait.timer ≤ d) :
    (s.issue now).Clearing now attempt (now + (s.next .prune).wait.timer) w := by
  have hw : s.machine.worker? = some w := by rw [Machine.worker?, hp]
  have hkind : w.call.kind = .prune := by rw [hcall]; rfl
  refine ⟨⟨d, by rw [machine_issue, hp], hd⟩, by rw [machine_issue, ha], ⟨seq, hcall⟩, ?_, taken_issue s now,
    Nat.le_add_right _ _, ?_⟩
  · rw [fault_issue hw, hkind, hf]
  · rw [wake_issue hw, hkind]

/-- After its report a round trip that is not the first comes to its prune. -/
theorem Underway.clearing (h : s.Underway now attempt limit w) {d seq : Nat} (hp : s.machine.phase = .awaiting w d)
    (hsaving : w.stage = .saving seq) (hres : w.resume (w.answered (stampAt s.wake) s.journal) =
      .report (.success seq) (some (.pruning seq))) (hf : (s.next .prune).effect = .works)
    (hwait : (s.next .prune).wait.timer ≤ s.machine.settings.timeout.timer) :
    ∃ w', (s.act s.wake).1.Clearing s.wake attempt (limit + (s.next .prune).wait.timer) w' := by
  obtain rfl : s.wake = limit := by
    have := h.ends
    rwa [hsaving] at this
  have hcall : Worker.call { w with stage := .pruning seq } = .prune seq := rfl
  rw [h.act_eq hp, hres]
  exact ⟨_, clearing_issue (s := { s with
    machine := (s.machine.proceed s.wake w d (.report (.success seq) (some (.pruning seq)))).1
    journal := w.performed (stampAt s.wake) s.journal }) rfl hcall h.attempt_eq hf
    (Nat.add_le_add_left hwait s.wake)⟩

/-- A call of another kind is not counted. -/
theorem next_act {k : CallKind} (h : ∀ w, (s.act now).1.machine.worker? = some w → w.call.kind ≠ k) :
    (s.act now).1.next k = s.next k := by
  obtain ⟨e, -, hact⟩ | ⟨_, -, -, -, -, hact⟩ := s.act_cases now
  · rw [hact, machine_issue] at h
    rw [hact]
    cases hw : (s.machine.handle now e).1.worker? with
    | none => rw [issue, hw]; rfl
    | some w => exact next_issue hw now (h w hw)
  · rw [hact]
    rfl

theorem Underway.next_prune {now' : Nat} (h : (s.act now').1.Underway now attempt limit w) :
    (s.act now').1.next .prune = s.next .prune := by
  refine next_act fun w' hw => ?_
  obtain rfl := Option.some.inj (h.worker.symm.trans hw)
  have hwhole := h.whole
  obtain ⟨wid, n, expect, stage⟩ := w
  cases stage with
  | pruning => exact hwhole.elim
  | _ => simp [Worker.call, Worker.callOf, Call.kind]

def OnWay (s : Session) (now attempt done limit : Nat) : Prop :=
  (∃ w, s.Underway now attempt done w ∧ (s.next .prune).effect = .works ∧
    (s.next .prune).wait.timer ≤ s.machine.settings.timeout.timer ∧ done + (s.next .prune).wait.timer = limit) ∨
  ∃ w, s.Clearing now attempt limit w

theorem OnWay.due {done : Nat} (h : s.OnWay now attempt done limit) :
    ∃ d, s.due = some d ∧ now ≤ d ∧ d ≤ limit := by
  obtain ⟨w, hunder, -, -, rfl⟩ | ⟨w, hclearing⟩ := h
  · exact ⟨_, hunder.due, hunder.timely, Nat.le_trans hunder.wake_le (Nat.le_add_right _ _)⟩
  · exact ⟨_, hclearing.prunes.2, hclearing.timely, Nat.le_refl _⟩

theorem OnWay.pass {done d : Nat} (h : s.OnWay now attempt done limit)
    (hd : s.due = some d) {later : Nat} (hle : later ≤ d) : s.OnWay later attempt done limit := by
  obtain ⟨w, hunder, hrest⟩ | ⟨w, hclearing⟩ := h
  · obtain rfl := Option.some.inj (hunder.due.symm.trans hd)
    exact Or.inl ⟨w, hunder.pass hle, hrest⟩
  · obtain rfl := Option.some.inj (hclearing.prunes.2.symm.trans hd)
    exact Or.inr ⟨w, { hclearing with timely := hle }⟩

theorem OnWay.act {done d : Nat} (h : s.OnWay now attempt done limit)
    (hlater : 1 < attempt) (hd : s.due = some d) (hid : s.machine.settings.id ≠ "") (hs : s.Intact)
    (hk : s.Keeps es₀ ss₀) (hu : s.Unexhausted) :
    (s.act d).1.OnWay d attempt done limit ∨
      d = limit ∧ (s.act d).1.machine.attempt = attempt ∧ (s.act d).1.machine.worker? = none ∧
        ∃ seq e x, (s.act d).1.Cleared seq e x := by
  obtain ⟨w, hunder, hf, hwait, hlimit⟩ | ⟨w, hclearing⟩ := h
  · left
    obtain rfl := Option.some.inj (hunder.due.symm.trans hd)
    obtain ⟨w', hunder'⟩ | ⟨d, seq, hp, hsaving, hres⟩ := hunder.step hid hs hu
    · refine Or.inl ⟨w', hunder', ?_⟩
      rw [hunder'.next_prune, Session.settings_act]
      exact ⟨hf, hwait, hlimit⟩
    · obtain ⟨es, ss, -, hkeeps⟩ := hk
      have hattempt : w.attempt > 1 := by
        rw [(hkeeps.worker w hunder.worker).1, hunder.attempt_eq]
        exact hlater
      rw [if_pos hattempt] at hres
      obtain ⟨w', hclearing⟩ := hunder.clearing hp hsaving hres hf hwait
      exact Or.inr ⟨w', hlimit ▸ hclearing⟩
  · right
    obtain ⟨hprunes, hdue⟩ := hclearing.prunes
    obtain rfl := Option.some.inj (hdue.symm.trans hd)
    obtain ⟨-, seq, e, x, hcleared, -⟩ := hk.cleared hs hu hprunes limit
    obtain ⟨hattempt, hw⟩ := hclearing.worker_act limit
    exact ⟨rfl, hattempt, hw, seq, e, x, hcleared⟩

end

end Session
end HealthSignal.RoundTrip

namespace HealthSignal.Probe
open RoundTrip Timeline
open Journal (Ledger)

variable {settings : Settings} {journal : Journal} {faults : Faults} {feed : Feed} {p q : Probe}
  {start now later : Nat} {es ss : List Record}

/-- A run keeps what it began with until it prunes. -/
theorem leads_keeps (hid : settings.id ≠ "") (hledger : Ledger settings.id journal es ss)
    (h : Leads (Journal.Elsewhere settings.id) feed start
      (persistence settings journal faults start) now p) :
    ∃ s, p.source = .persistence s ∧ s.machine.settings = settings ∧
      (s.Unexhausted → s.Intact ∧ s.Keeps es ss) :=
  leads_preserves hid hledger (fun _ t hid' hs hu hk => hk.act hs hid' hu t) (fun _ _ hj hk => hk.elsewhere hj)
    (fun _ hk => hk.stop) (.start hledger faults start) h

/-- The records of a round trip that has pruned stay as they are until the next one begins. -/
theorem leads_cleared {s : Session} {seq : Nat} {e x : Record} (hp : p.source = .persistence s)
    (hset : s.machine.settings = settings) (hw : s.machine.worker? = none) (hc : s.Cleared seq e x)
    (hq : Leads (Journal.Elsewhere settings.id) feed now p later q) :
    ∃ s', q.source = .persistence s' ∧ (s.machine.attempt < s'.machine.attempt ∨ s'.Cleared seq e x) := by
  let P (s' : Session) : Prop := s'.machine.settings = settings ∧
    (s.machine.attempt < s'.machine.attempt ∨
      s'.machine.attempt = s.machine.attempt ∧ s'.machine.worker? = none ∧ s'.Cleared seq e x)
  have hrun : ∃ s', q.source = .persistence s' ∧ P s' := by
    refine reaches_session (fun s' t hP => ⟨(s'.settings_act t).trans hP.1, ?_⟩)
      (fun s' j hj hP => ⟨hP.1, ?_⟩) (fun s' hP => ⟨hP.1, ?_⟩) ⟨s, hp, hset, Or.inr ⟨rfl, hw, hc⟩⟩ hq
    · obtain hlt | ⟨hattempt, hw', hc'⟩ := hP.2
      · exact Or.inl (Nat.lt_of_lt_of_le hlt (s'.attempt_act t))
      · obtain hlt | ⟨hawaits, hw'', hcalls, hjournal⟩ := Session.act_idle hw' t
        · exact Or.inl (hattempt ▸ hlt)
        · exact Or.inr ⟨hawaits.attempt.trans hattempt, hw'', hc'.congr hawaits hcalls hjournal⟩
    · obtain hlt | ⟨hattempt, hw', hc'⟩ := hP.2
      · exact Or.inl hlt
      · exact Or.inr ⟨hattempt, hw', { hc' with ledger := hc'.ledger.elsewhere (by rwa [hP.1]) }⟩
    · obtain hlt | ⟨hattempt, -, hc'⟩ := hP.2
      · exact Or.inl hlt
      · exact Or.inr ⟨hattempt, rfl, { hc' with }⟩
  obtain ⟨s', hs', -, hlt | ⟨-, -, hc'⟩⟩ := hrun
  · exact ⟨s', hs', Or.inl hlt⟩
  · exact ⟨s', hs', Or.inr hc'⟩

/-- A run passes, not later than `limit`, through a probe whose round trip `attempt` is over and has left its own
records only, and these are still the only ones if no other round trip has begun since. -/
def ClearedBy (Change : Journal → Journal → Prop) (feed : Feed) (attempt limit now : Nat) (p : Probe)
    (later : Nat) (q : Probe) : Prop :=
  ∃ t r s seq e x, t ≤ limit ∧ Leads Change feed now p t r ∧ Leads Change feed t r later q ∧
    r.source = .persistence s ∧ s.machine.attempt = attempt ∧ s.machine.worker? = none ∧ s.Cleared seq e x ∧
    ∃ s', q.source = .persistence s' ∧ (attempt < s'.machine.attempt ∨ s'.Cleared seq e x)

/-- What a round trip that begins without a fault ahead of it comes to, if it is not the first. -/
theorem leads_on (hid : settings.id ≠ "") (hledger : Ledger settings.id journal es ss)
    (h : Leads (Journal.Elsewhere settings.id) feed start
      (persistence settings journal faults start) now p)
    {s : Session} (hp : p.source = .persistence (s.begun now)) (hlater : 0 < s.machine.attempt)
    (hf : ∀ k ∈ Session.roundTrip, (s.next k).effect = .works)
    (hspan : s.span Session.exchange < settings.timeout.timer)
    (hwait : (s.next .prune).wait.timer ≤ settings.timeout.timer)
    (hq : Leads (Journal.Elsewhere settings.id) feed now p later q) (hu : q.Unexhausted) :
    q.running = false ∨
    (∃ s', q.source = .persistence s' ∧ s'.OnWay later (s.machine.attempt + 1) (now + s.span Session.exchange)
      (now + s.span Session.roundTrip)) ∨
    ClearedBy (Journal.Elsewhere settings.id) feed (s.machine.attempt + 1)
      (now + s.span Session.roundTrip) now p later q := by
  let U (t : Nat) (s' : Session) : Prop := s'.OnWay t (s.machine.attempt + 1) (now + s.span Session.exchange)
    (now + s.span Session.roundTrip)
  let D (t : Nat) (r : Probe) : Prop := t = now + s.span Session.roundTrip ∧ ∃ s' seq e x,
    r.source = .persistence s' ∧ s'.machine.settings = settings ∧ s'.machine.attempt = s.machine.attempt + 1 ∧
      s'.machine.worker? = none ∧ s'.Cleared seq e x
  have hway : U now (s.begun now) := by
    obtain ⟨s', hs', hset, -⟩ := leads_keeps hid hledger h
    obtain rfl : s.begun now = s' := by simpa using hp.symm.trans hs'
    have hset' : s.machine.settings = settings := by
      rwa [Session.begun, Session.machine_issue] at hset
    have hprune : (s.begun now).next .prune = s.next .prune :=
      Session.next_issue (s := { s with machine := s.machine.begun now }) rfl now
        (by simp [Worker.start, Worker.call, Worker.callOf, Call.kind])
    refine Or.inl ⟨_, Session.begun_underway (fun k hk => hf k (List.mem_append_left _ hk)) (by rwa [hset']), ?_⟩
    rw [hprune, hset, Session.span_roundTrip]
    exact ⟨hf .prune (by decide), hwait, Nat.add_assoc _ _ _⟩
  have hdue : ∀ t s', U t s' → ∃ d, s'.due = some d ∧ t ≤ d := by
    intro t s' hway
    obtain ⟨d, hd, hle, -⟩ := hway.due
    exact ⟨d, hd, hle⟩
  have hpass : ∀ t later s' d, U t s' → s'.due = some d → later ≤ d → U later s' :=
    fun t later s' d hway hd hle => hway.pass hd hle
  have hchange : ∀ t s' j, U t s' → Journal.Elsewhere settings.id s'.journal j → U t { s' with journal := j } := by
    rintro t s' j (⟨w, hunder, hrest⟩ | ⟨w, hclearing⟩) -
    · exact Or.inl ⟨w, { hunder with }, hrest⟩
    · exact Or.inr ⟨w, { hclearing with }⟩
  have hact : ∀ t s' d r, Leads (Journal.Elsewhere settings.id) feed now p t r → r.Unexhausted →
      r.source = .persistence s' → U t s' → s'.due = some d → U d (s'.act d).1 ∨ D d (r.act feed d) := by
    intro t s' d r hpr hur hs' hway hd
    obtain ⟨s₁, hs₁, hset, hkeeps⟩ := leads_keeps hid hledger (h.trans hpr)
    obtain rfl : s' = s₁ := by simpa using hs'.symm.trans hs₁
    obtain ⟨hintact, hkeeps⟩ := hkeeps (hur s' hs')
    obtain hway' | ⟨hd, hattempt, hworker, seq, e, x, hcleared⟩ :=
      hway.act (Nat.succ_lt_succ hlater) hd (by rwa [hset]) hintact hkeeps (hur s' hs')
    · exact Or.inl hway'
    · exact Or.inr ⟨hd, _, seq, e, x, source_act hs' feed _, (s'.settings_act d).trans hset, hattempt, hworker,
        hcleared⟩
  obtain hr | hway' | ⟨t, r, hpr, hrq, ht, s', seq, e, x, hs', hset, hattempt, hworker, hcleared⟩ :=
    leads_until hp hway hdue hpass hchange hact hq hu
  · exact Or.inl hr
  · exact Or.inr (Or.inl hway')
  · have hstays := leads_cleared hs' hset hworker hcleared hrq
    rw [hattempt] at hstays
    exact Or.inr (Or.inr ⟨t, r, s', seq, e, x, Nat.le_of_eq ht, hpr, hrq, hs', hattempt, hworker, hcleared, hstays⟩)

/-- A probe that has the records under its id to itself adds to them in its first round trip. When a later one
prunes, its marker and its snapshot are left, which are the ones to be recovered next, and nothing else; every round
trip without a fault that is not the first comes to that. -/
theorem retains_newest_pair (hid : settings.id ≠ "") (hledger : Ledger settings.id journal es ss)
    (h : Leads (Journal.Elsewhere settings.id) feed start
      (persistence settings journal faults start) now p) :
    ∃ s, p.source = .persistence s ∧
      (p.Unexhausted →
        (s.machine.attempt ≤ 1 → ∃ es' ss', Ledger settings.id s.journal es' ss' ∧ es <+: es' ∧ ss <+: ss') ∧
        (s.Prunes → ∀ t, 1 < s.machine.attempt ∧ ∃ seq e x, (s.act t).1.Cleared seq e x ∧
          ∃ es' ss', Ledger settings.id s.journal es' ss' ∧ e ∈ es' ∧ x ∈ ss')) ∧
      ∀ s₀ : Session, s = s₀.begun now → 0 < s₀.machine.attempt →
        (∀ k ∈ Session.roundTrip, (s₀.next k).effect = .works) →
        s₀.span Session.exchange < settings.timeout.timer →
        (s₀.next .prune).wait.timer ≤ settings.timeout.timer →
        ∀ later q, Leads (Journal.Elsewhere settings.id) feed now p later q → q.Unexhausted →
          q.running = true → Settled (due feed) later q → now + s₀.span Session.roundTrip ≤ later →
          ClearedBy (Journal.Elsewhere settings.id) feed (s₀.machine.attempt + 1)
            (now + s₀.span Session.roundTrip) now p later q := by
  obtain ⟨s, hs, hset, hkeeps⟩ := leads_keeps hid hledger h
  refine ⟨s, hs, fun hu => ?_, ?_⟩
  · obtain ⟨hintact, hkeeps⟩ := hkeeps (hu s hs)
    refine ⟨fun hfirst => ?_, fun hprunes t => ?_⟩
    · obtain ⟨es', ss', hledger', hm⟩ := hkeeps
      exact ⟨es', ss', hset ▸ hledger', hm.first hfirst⟩
    · exact hset ▸ hkeeps.cleared hintact (hu s hs) hprunes t
  · rintro s₀ rfl hlater hf hspan hwait later q hq hu hr hsettled hlimit
    obtain hr' | ⟨s', hs', hway⟩ | hcleared := leads_on hid hledger h hs hlater hf hspan hwait hq hu
    · simp [hr] at hr'
    · obtain ⟨d, hd, -, hle⟩ := hway.due
      have := hsettled d (by rw [due_persistence hs', hd, hr]; rfl)
      omega
    · exact hcleared

/-- Over an entry from before, the second round trip of a probe leaves only what it has written itself. -/
theorem one_pair_after_second :
    let journal := Journal.put .empty .entry "p" 7 (Record.toJson .entry ⟨"p", 7, "x", 0⟩)
    let p := persistence ⟨"p", .seconds 5, .seconds 10⟩ journal .none 0
    ∃ p' q, Leads (Journal.Elsewhere "p") (.standalone "n") 0 p 10000 p' ∧
      Leads (Journal.Elsewhere "p") (.standalone "n") 10000 p' 10001 q ∧
      ClearedBy (Journal.Elsewhere "p") (.standalone "n") 2 10000 10000 p' 10001 q := by
  intro journal p
  have hid : (⟨"p", .seconds 5, .seconds 10⟩ : Settings).id ≠ "" := by decide
  have hempty : Ledger "p" .empty [] [] := ⟨.empty, .empty⟩
  have hledger : Ledger "p" journal [⟨"p", 7, "x", 0⟩] [] :=
    hempty.append (by decide) (by decide) (by simp) "x"
  -- Four calls of the first round trip take effect at time zero, before its worker exits, and five of the second
  -- one at its time.
  let s := (Session.start ⟨"p", .seconds 5, .seconds 10⟩ journal .none 0).1
  let s₀ := s.acted [0, 0, 0, 0, 0]
  let s₁ := s.acted [0, 0, 0, 0, 0, 10000]
  let s₂ := s₁.acted [10000, 10000, 10000, 10000, 10000, 10000]
  have hacts : (s.actsAt 0 [0, 0, 0, 0, 0, 10000] = true ∧
      s₁.actsAt 10000 [10000, 10000, 10000, 10000, 10000, 10000] = true) ∧ s₂.due = some 20000 ∧
      (∀ c ∈ s₂.calls, ∀ seq ∈ c.2.seq?, seq < UInt64.size - 1) ∧
      (s₀.machine.settings.timeout.millis ≠ 0 ∧ (s₀.act 10000).1.machine.attempt ≠ s₀.machine.attempt) ∧
      s₀.machine.attempt = 1 ∧ (∀ k ∈ Session.roundTrip, (s₀.next k).effect = .works) ∧
      s₀.span Session.exchange = 0 ∧ (s₀.next .prune).wait.timer = 0 := by
    decide +kernel
  obtain ⟨⟨hfirst, hsecond⟩, hdue, hcalls, ⟨htimeout, hbegun⟩, hattempt, hworks, hspan, hwait⟩ := hacts
  have hs₁ : s₁ = s₀.begun 10000 :=
    (s.acted_concat [0, 0, 0, 0, 0] 10000).trans (Session.act_begun htimeout hbegun)
  have hbegins : ∃ p', Leads (Journal.Elsewhere "p") (.standalone "n") 0 p 10000 p' ∧
      p'.source = .persistence s₁ ∧ p'.running = true :=
    leads_acted (source_persistence ..) (running_follow _ _) hfirst rfl
  obtain ⟨p', hp', hs', hrunning'⟩ := hbegins
  have hends : ∃ q, Leads (Journal.Elsewhere "p") (.standalone "n") 10000 p' 10000 q ∧
      q.source = .persistence s₂ ∧ q.running = true :=
    leads_acted hs' hrunning' hsecond rfl
  obtain ⟨q, hq, hsq, hrunning⟩ := hends
  have hlate : ∀ d, q.due (.standalone "n") = some d → 10001 < d := by
    intro d hd
    rw [due_persistence hsq, hrunning, hdue] at hd
    rw [← Option.some.inj hd]
    decide
  have hpass : Leads (Journal.Elsewhere "p") (.standalone "n") 10000 p' 10001 q :=
    hq.pass (by decide) fun d hd => Nat.le_trans (Nat.le_of_lt (hlate d hd)) (Nat.le_max_left _ _)
  have hu : q.Unexhausted := by
    intro s hs
    obtain rfl := Source.persistence.inj (hsq.symm.trans hs)
    exact hcalls
  obtain ⟨s', hs'', -, hclear⟩ := retains_newest_pair hid hledger hp'
  obtain rfl := Source.persistence.inj (hs''.symm.trans hs')
  have hlimit : 10000 + s₀.span Session.roundTrip = 10000 := by
    rw [Session.span_roundTrip, hspan, hwait]
  have := hclear s₀ hs₁ (by rw [hattempt]; decide) hworks (by rw [hspan]; decide) (by rw [hwait]; decide) 10001 q
    hpass hu hrunning hlate (by rw [hlimit]; decide)
  rw [hattempt, hlimit] at this
  exact ⟨p', q, hp', hpass, this⟩

end HealthSignal.Probe
