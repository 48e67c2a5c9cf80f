import HealthSignal.Proofs.RoundTrip.Verdict

/-! The loss of a marker. What a round trip must find again is what the report evaluated last has left, whatever
came of the round trips in between; a loss is reported once, as the report of it leaves nothing to be found. -/
namespace HealthSignal.RoundTrip

def Report.Leaves (r : Report) (seq : Nat) : Prop := r.journal = some (.ok ()) ∧ r.written = some seq

def Report.Misses (r : Report) (seq : Nat) : Prop := r.journal = some (.error (.lost seq))

def lastReport : List Moment → Option Report
  | [] => none
  | x :: older =>
    match x.finding? with
    | some (.report r) => some r
    | _ => lastReport older

def lossOf (seq : Nat) (rest : String) : Status :=
  storeFailure ("journal: " ++ (Failure.lost seq).message ++ rest)

theorem lastReport_cons {x : Moment} {r : Report} (h : x.finding? = some (.report r)) (older : List Moment) :
    lastReport (x :: older) = some r := by
  simp only [lastReport, h]

theorem lastReport_skip {x : Moment} (h : ∀ r, x.finding? ≠ some (.report r)) (older : List Moment) :
    lastReport (x :: older) = lastReport older := by
  rw [lastReport]
  split
  · next r hr => exact absurd hr (h r)
  · rfl

/-- The last report came after some moment, or it is the last one up to then. -/
theorem lastReport_append {newer older : List Moment} {r : Report} (h : lastReport (newer ++ older) = some r) :
    (∃ later x earlier, newer = later ++ x :: earlier ∧ x.finding? = some (.report r)) ∨
      lastReport older = some r := by
  induction newer with
  | nil => exact Or.inr h
  | cons x newer ih =>
    by_cases hx : ∃ r', x.finding? = some (.report r')
    · obtain ⟨r', hx⟩ := hx
      rw [List.cons_append, lastReport_cons hx] at h
      obtain rfl := Option.some.inj h
      exact Or.inl ⟨[], x, newer, rfl, hx⟩
    · rw [List.cons_append, lastReport_skip (fun r' hr => hx ⟨r', hr⟩)] at h
      obtain ⟨later, y, earlier, rfl, hy⟩ | hold := ih h
      · exact Or.inl ⟨x :: later, y, earlier, rfl, hy⟩
      · exact Or.inr hold

namespace Moment

def Replays (x : Moment) (seqs : List Nat) : Prop :=
  ∃ w d answers, x.machine.phase = .awaiting w d ∧ x.event = .answer answers ∧
    w.call = .replay ∧ answers .replay = .ok seqs

def Writes (x : Moment) (seq : Nat) : Prop :=
  ∃ w d answers payload, x.machine.phase = .awaiting w d ∧ x.event = .answer answers ∧
    w.call = .append seq payload ∧ (answers w.call).isOk = true

end Moment

def Worker.Reads (w : Worker) : Prop := w.call = .load ∨ w.call = .replay

namespace Worker
variable {w : Worker} {answers : Machine.Answers} {r : Report} {next : Option Stage} {stage : Stage} {seq : Nat}

inductive Heeds (w : Worker) (answers : Machine.Answers) : Progress → Prop
  | loaded {recovered : Except Failure Nat} : w.stage = .loading → Heeds w answers (.ask (.replaying recovered))
  | found {recovered : Except Failure Nat} {seqs : List Nat} {seq : Nat} : w.stage = .replaying recovered →
    answers .replay = .ok seqs → (∀ s, w.expect.journal = some s → s ∈ seqs) →
    Heeds w answers (.ask (.appending recovered seq))
  | missed {recovered : Except Failure Nat} {seqs : List Nat} {seq : Nat} {r : Report} :
    w.stage = .replaying recovered → answers .replay = .ok seqs → w.expect.journal = some seq → seq ∉ seqs →
    r.Misses seq → Heeds w answers (.report r none)
  | unread {recovered : Except Failure Nat} {e : JournalError} {r : Report} : w.stage = .replaying recovered →
    answers .replay = .error e → r.journal = some (.error (.store e)) → Heeds w answers (.report r none)
  | refused {recovered : Except Failure Nat} {seq : Nat} {e : JournalError} {r : Report} :
    w.stage = .appending recovered seq → r.journal = some (.error (.store e)) → Heeds w answers (.report r none)
  | appended {recovered : Except Failure Nat} {seq : Nat} : w.stage = .appending recovered seq →
    (answers w.call).isOk = true → Heeds w answers (.ask (.saving seq))
  | unsaved {recovered : Except Failure Nat} {seq : Nat} {r : Report} {next : Option Stage} :
    w.stage = .appending recovered seq → (answers w.call).isOk = true → r.Leaves seq →
    Heeds w answers (.report r next)
  | saved {seq : Nat} {r : Report} {next : Option Stage} : w.stage = .saving seq → r.Leaves seq →
    Heeds w answers (.report r next)
  | pruned {seq : Nat} : w.stage = .pruning seq → Heeds w answers .exit

theorem Heeds.journal (h : w.Heeds answers (.report r next)) : r.journal ≠ none := by
  cases h with
  | missed _ _ _ _ hr | unread _ _ hr | refused _ hr => simp [show r.journal = some _ from hr]
  | unsaved _ _ hr | saved _ hr => simp [hr.1]

theorem Steps.heeds {p : Progress} (h : w.Steps answers p) : w.Heeds answers p := by
  cases h with
  | loaded hs => exact .loaded hs
  | replayed hs ha hall => exact .found hs ha hall
  | missed hs ha hexpect hnot => exact .missed hs ha hexpect hnot rfl
  | unread hs ha => exact .unread hs ha rfl
  | refused hs | refusedToo hs => exact .refused hs rfl
  | appended hs ha => exact .appended hs (isOk_call (by rw [call, hs, callOf]) ha)
  | appendedOnly hs ha => exact .unsaved hs (isOk_call (by rw [call, hs, callOf]) ha) ⟨rfl, rfl⟩
  | unsaved hs | saved hs => exact .saved hs ⟨rfl, rfl⟩
  | pruned hs => exact .pruned hs

theorem resume_heeds (w : Worker) (answers : Machine.Answers) : w.Heeds answers (w.resume (answers w.call)) :=
  (w.resume_steps answers).heeds

end Worker

theorem Expectation.update_journal (e : Expectation) {r : Report} (h : r.journal ≠ none) (seq : Nat) :
    (e.update r).journal = some seq ↔ r.Leaves seq := by
  simp only [update, after, Report.Leaves]
  split
  · next hr => simp [hr]
  · next hr => simp [hr]
  · next hr => exact absurd hr h

def Expects (history : List Moment) (m : Machine) : Prop :=
  ∀ seq, m.expect.journal = some seq ↔ ∃ r, lastReport history = some r ∧ r.Leaves seq

theorem Machine.Turn.expect {m m' : Machine} {now : Nat} {e : Event} {f : Option Finding}
    (h : m.Turn now e m' f) :
    (∃ r, f = some (.report r) ∧ m'.expect = m.expect.update r) ∨
      (∀ r, f ≠ some (.report r)) ∧ m'.expect = m.expect := by
  cases h with
  | reportAndDrain | reportAndLeave => exact Or.inl ⟨_, rfl, rfl⟩
  | _ => exact Or.inr ⟨by simp, rfl⟩

theorem Expects.handle {history : List Moment} {m : Machine} (h : Expects history m) (now : Nat) (e : Event) :
    Expects (⟨now, m, e⟩ :: history) (m.handle now e).1 := by
  intro seq
  obtain ⟨r, hf, heq⟩ | ⟨hf, heq⟩ := (m.handle_turn now e).expect
  · obtain ⟨w, d, answers, next, -, -, hres⟩ := Machine.finding_report hf
    have hheeds := w.resume_heeds answers
    rw [hres] at hheeds
    rw [heq, m.expect.update_journal hheeds.journal, lastReport_cons (x := ⟨now, m, e⟩) hf]
    simp
  · rw [heq, lastReport_skip (x := ⟨now, m, e⟩) hf]
    exact h seq

/-- What is known of a round trip in progress: it looks for what the machine does, it found that once its entries
were read, and nothing was written before that. -/
structure Trip (history : List Moment) (m : Machine) (w : Worker) : Prop where
  expect : w.expect = m.expect
  found : ∀ y ∈ history, y.attempt = m.attempt → ∀ seqs, y.Replays seqs →
    ∀ seq, m.expect.journal = some seq → seq ∈ seqs
  written : ∀ seq, w.stage = .saving seq → ∃ y ∈ history, y.attempt = m.attempt ∧ y.Writes seq
  reading : w.Reads → ∀ y ∈ history, y.attempt = m.attempt → ∀ w', y.after.worker? = some w' → w'.Reads

theorem Trip.ask {history : List Moment} {m : Machine} {w : Worker} {answers : Machine.Answers} {stage : Stage}
    {d : Nat} (h : Trip history m w) (hp : m.phase = .awaiting w d)
    (hr : w.resume (answers w.call) = .ask stage) (now : Nat) :
    Trip (⟨now, m, .answer answers⟩ :: history) { m with phase := .awaiting { w with stage := stage } d }
      { w with stage := stage } := by
  have hafter : Moment.after ⟨now, m, .answer answers⟩ =
      { m with phase := .awaiting { w with stage := stage } d } := by
    simp only [Moment.after, Machine.handle, Machine.answer, hp, hr, Machine.proceed]
  have hattempt : Moment.attempt ⟨now, m, .answer answers⟩ = m.attempt := by rw [Moment.attempt, hafter]
  have hreplays : ∀ {seqs}, Moment.Replays ⟨now, m, .answer answers⟩ seqs →
      w.call = .replay ∧ answers .replay = .ok seqs := by
    rintro seqs ⟨w', d', answers', hp', ⟨⟩, hcall, ha⟩
    obtain ⟨rfl, -⟩ := Phase.awaiting.inj (hp.symm.trans hp')
    exact ⟨hcall, ha⟩
  have hheeds := w.resume_heeds answers
  rw [hr] at hheeds
  cases hheeds with
  | loaded hs =>
    have hcall : w.call = .load := by rw [Worker.call, hs, Worker.callOf]
    refine ⟨h.expect, List.forall_mem_cons.mpr ⟨fun _ seqs hy => ?_, h.found⟩, by simp,
      fun hreads => List.forall_mem_cons.mpr ⟨fun _ w' hw' => ?_, h.reading (Or.inl hcall)⟩⟩
    · exact absurd (hreplays hy).1 (by simp [hcall])
    · rw [hafter] at hw'
      exact Option.some.inj hw' ▸ hreads
  | @found recovered seqs seq hs ha hall =>
    refine ⟨h.expect, List.forall_mem_cons.mpr ⟨fun _ seqs' hy => ?_, h.found⟩, by simp, fun hreads => ?_⟩
    · obtain rfl := Except.ok.inj (ha.symm.trans (hreplays hy).2)
      exact h.expect ▸ hall
    · simp [Worker.Reads, Worker.call, Worker.callOf] at hreads
  | @appended recovered seq hs hok =>
    have hcall : w.call = .append seq w.marker := by rw [Worker.call, hs, Worker.callOf]
    refine ⟨h.expect, List.forall_mem_cons.mpr ⟨fun _ seqs' hy => ?_, h.found⟩, fun seq' hseq => ?_,
      fun hreads => ?_⟩
    · exact absurd (hreplays hy).1 (by simp [hcall])
    · obtain rfl := Stage.saving.inj hseq
      exact ⟨_, List.mem_cons_self, hattempt, w, d, answers, w.marker, hp, rfl, hcall, hok⟩
    · simp [Worker.Reads, Worker.call, Worker.callOf] at hreads

structure Trips (history : List Moment) (m : Machine) : Prop where
  trip : ∀ w d, m.phase = .awaiting w d → Trip history m w
  /-- While a worker runs, it has run since its round trip began. -/
  begun : m.worker? ≠ none → ∀ y ∈ history, y.attempt = m.attempt → y.after.worker? ≠ none

theorem Trips.handle {history : List Moment} {m : Machine} (h : Trips history m) (hc : Consistent history m)
    (now : Nat) (e : Event) : Trips (⟨now, m, e⟩ :: history) (m.handle now e).1 := by
  have hturn := m.handle_turn now e
  have hafter : Moment.after ⟨now, m, e⟩ = (m.handle now e).1 := rfl
  generalize (m.handle now e).1 = m', m.finding? e = f at *
  cases hturn with
  | @ask w d answers stage hp hr =>
    refine ⟨fun w' d' hp' => ?_, fun hw => List.forall_mem_cons.mpr ⟨fun _ => hafter ▸ hw, h.begun ?_⟩⟩
    · obtain ⟨rfl, -⟩ := Phase.awaiting.inj hp'
      exact (h.trip w d hp).ask hp hr now
    · simp [Machine.worker?, hp]
  | @reportAndDrain w d answers r stage hp hr =>
    refine ⟨by simp, fun hw => List.forall_mem_cons.mpr ⟨fun _ => hafter ▸ hw, h.begun ?_⟩⟩
    simp [Machine.worker?, hp]
  | @begin t hp _ =>
    have hnew : ∀ y ∈ history, y.attempt ≠ (m.begun now).attempt := fun y hy heq =>
      Nat.not_succ_le_self _ (heq ▸ hc.attempt_le y hy)
    refine ⟨fun w' d' hp' => ?_, fun hw => List.forall_mem_cons.mpr ⟨fun _ => hafter ▸ hw,
      fun y hy heq => absurd heq (hnew y hy)⟩⟩
    obtain ⟨rfl, -⟩ := Phase.awaiting.inj hp'
    refine ⟨rfl, List.forall_mem_cons.mpr ⟨fun _ seqs hy => ?_, fun y hy heq => absurd heq (hnew y hy)⟩,
      by simp [Worker.start], fun hreads => List.forall_mem_cons.mpr ⟨fun _ w' hw' => ?_,
        fun y hy heq => absurd heq (hnew y hy)⟩⟩
    · obtain ⟨w', d', -, hp', -⟩ := hy
      simp [hp] at hp'
    · rw [hafter] at hw'
      exact Option.some.inj hw' ▸ hreads
  | idle hw =>
    exact ⟨fun w d hp => by simp [Machine.worker?, hp] at hw, fun hnone => absurd hw hnone⟩
  | _ =>
    exact ⟨fun w d hp => by simp [Machine.delay, Machine.stop] at hp,
      fun hw => absurd (by simp [Machine.worker?, Machine.delay, Machine.stop]) hw⟩

namespace Course
variable {settings : Settings} {start now : Nat} {history : List Moment} {m : Machine} {hub : Hub}

theorem expects (h : Course settings start now history m hub) : Expects history m := by
  induction h with
  | start => exact fun seq => by simp [Machine.waiting, Machine.new, Expectation.nothing, lastReport]
  | pass _ _ _ ih => exact ih
  | mail _ _ ih => exact ih
  | event _ _ ih => exact ih.handle _ _
  | stop _ ih => exact ih.handle _ .stop

theorem trips (h : Course settings start now history m hub) : Trips history m := by
  induction h with
  | start => exact ⟨by simp [Machine.waiting], by simp⟩
  | pass _ _ _ ih => exact ih
  | mail _ _ ih => exact ih
  | event h _ ih => exact ih.handle h.consistent _ _
  | stop h ih => exact ih.handle h.consistent _ .stop

variable {newer older : List Moment} {x : Moment} {r : Report} {seq : Nat}

/-- What comes to light with a report, and the worker that it is from. -/
theorem report_heeds (h : Course settings start now older x.machine hub)
    (hr : x.finding? = some (.report r)) :
    ∃ w d answers next, x.machine.phase = .awaiting w d ∧ x.event = .answer answers ∧
      w.resume (answers w.call) = .report r next ∧ w.Heeds answers (.report r next) ∧
      Trip older x.machine w ∧ x.attempt = x.machine.attempt := by
  obtain ⟨w, d, answers, next, hp, he, hres⟩ := Machine.finding_report hr
  have hturn := x.machine.handle_turn x.time x.event
  exact ⟨w, d, answers, next, hp, he, hres, hres ▸ w.resume_heeds answers, h.trips.trip w d hp,
    hturn.attempt_eq (by simp [he])⟩

theorem misses_iff (h : Course settings start now older x.machine hub)
    (hr : x.finding? = some (.report r)) (seq : Nat) :
    r.Misses seq ↔ (∃ r₀, lastReport older = some r₀ ∧ r₀.Leaves seq) ∧
      ∃ y ∈ x :: older, y.attempt = x.attempt ∧ ∃ seqs, y.Replays seqs ∧ seq ∉ seqs := by
  obtain ⟨w, d, answers, next, hp, he, -, hheeds, htrip, hattempt⟩ := h.report_heeds hr
  rw [← h.expects seq, ← htrip.expect]
  constructor
  · intro hmiss
    cases hheeds with
    | @missed recovered seqs seq' _ hs ha hexpect hnot hr' =>
      obtain rfl : seq' = seq := by simpa using hr'.symm.trans hmiss
      exact ⟨hexpect, x, List.mem_cons_self, rfl, seqs,
        ⟨w, d, answers, hp, he, by rw [Worker.call, hs, Worker.callOf], ha⟩, hnot⟩
    | unread _ _ hr' | refused _ hr' => simpa using hr'.symm.trans hmiss
    | unsaved _ _ hr' | saved _ hr' => simpa using hr'.1.symm.trans hmiss
  · rintro ⟨hexpect, y, hy, hya, seqs, hreplays, hnot⟩
    obtain rfl | hy := List.mem_cons.mp hy
    · obtain ⟨w', d', answers', hp', he', hcall, ha'⟩ := hreplays
      obtain ⟨rfl, -⟩ := Phase.awaiting.inj (hp.symm.trans hp')
      obtain rfl := Event.answer.inj (he.symm.trans he')
      cases hheeds with
      | missed _ _ hexpect' _ hr' =>
        obtain rfl := Option.some.inj (hexpect.symm.trans hexpect')
        exact hr'
      | unread _ ha _ => cases ha.symm.trans ha'
      | refused hs _ | unsaved hs _ _ | saved hs _ => simp [Worker.call, hs, Worker.callOf] at hcall
    · exact absurd (htrip.found y hy (hya.trans hattempt) seqs hreplays seq (htrip.expect ▸ hexpect)) hnot

/-- A round trip that missed an entry was about to write nothing, and it is over with its report. -/
theorem reading_of_misses (h : Course settings start now older x.machine hub)
    (hr : x.finding? = some (.report r)) (hmiss : r.Misses seq) :
    x.after.worker? = none ∧
      ∀ y ∈ older, y.attempt = x.attempt → ∀ w, y.after.worker? = some w → w.Reads := by
  obtain ⟨w, d, answers, next, hp, he, hres, hheeds, htrip, hattempt⟩ := h.report_heeds hr
  cases hheeds with
  | missed hs =>
    refine ⟨?_, hattempt ▸ htrip.reading (Or.inr (by rw [Worker.call, hs, Worker.callOf]))⟩
    simp [Moment.after, he, Machine.handle, Machine.answer, hp, hres, Machine.proceed,
      Machine.worker?]
  | unread _ _ hr' | refused _ hr' => cases hr'.symm.trans hmiss
  | unsaved _ _ hr' | saved _ hr' => cases hr'.1.symm.trans hmiss

/-- The worker of a round trip that is over does not come back. -/
theorem over_of_over (h : Course settings start now (newer ++ x :: older) m hub) (hx : x.after.worker? = none)
    {y : Moment} (hy : y ∈ newer) (hattempt : y.attempt = x.attempt) : y.after.worker? = none := by
  obtain ⟨later, earlier, rfl⟩ := List.append_of_mem hy
  rw [List.append_assoc, List.cons_append] at h
  obtain ⟨hub', hy'⟩ := h.before
  cases hworker : y.after.worker? with
  | none => rfl
  | some w =>
    have hbegun := (hy'.trips.handle hy'.consistent y.time y.event).begun (hworker ▸ Option.some_ne_none w)
    exact absurd hx (hbegun x (by simp) hattempt.symm)

/-- An entry that a report leaves was acknowledged in the same round trip. -/
theorem written_of_leaves (h : Course settings start now older x.machine hub)
    (hr : x.finding? = some (.report r)) (hleaves : r.Leaves seq) :
    ∃ z ∈ x :: older, z.attempt = x.attempt ∧ z.Writes seq := by
  obtain ⟨w, d, answers, next, hp, he, -, hheeds, htrip, hattempt⟩ := h.report_heeds hr
  cases hheeds with
  | missed _ _ _ _ hr' | unread _ _ hr' | refused _ hr' => cases hr'.symm.trans hleaves.1
  | @unsaved recovered seq' _ _ hs hok hr' =>
    obtain rfl := Option.some.inj (hr'.2.symm.trans hleaves.2)
    exact ⟨x, List.mem_cons_self, rfl, w, d, answers, w.marker, hp, he, by rw [Worker.call, hs, Worker.callOf], hok⟩
  | saved hs hr' =>
    obtain rfl := Option.some.inj (hr'.2.symm.trans hleaves.2)
    obtain ⟨z, hz, hza, hwrites⟩ := htrip.written _ hs
    exact ⟨z, List.mem_cons_of_mem x hz, hza.trans hattempt.symm, hwrites⟩

/-- What was found missing is only missed again after it was written anew. -/
theorem written_anew {later between : List Moment} {y : Moment} {r' : Report}
    (h : Course settings start now (later ++ y :: (between ++ x :: older)) m hub)
    (hr : x.finding? = some (.report r)) (hmiss : r.Misses seq)
    (hr' : y.finding? = some (.report r')) (hagain : r'.Misses seq) : ∃ z ∈ between, z.Writes seq := by
  obtain ⟨_, hy⟩ := h.before
  obtain ⟨⟨r₀, hlast, hleaves⟩, -⟩ := (hy.misses_iff hr' seq).mp hagain
  obtain ⟨late, z, early, rfl, hz⟩ | hold := lastReport_append hlast
  · rw [List.append_assoc, List.cons_append] at hy
    obtain ⟨_, hz'⟩ := hy.before
    obtain ⟨q, hq, hqa, hwrites⟩ := hz'.written_of_leaves hz hleaves
    rw [← List.cons_append] at hq
    obtain hq | hq := List.mem_append.mp hq
    · exact ⟨q, List.mem_append_right _ hq, hwrites⟩
    · -- What came before the loss belongs to earlier round trips.
      obtain ⟨_, hx⟩ := hz'.before
      obtain ⟨w, d, -, -, hp, -, -, -, -, hza⟩ := hz'.report_heeds hz
      have hlt := hz'.consistent.open_lt w d hp x (by simp) (Or.inl (by simp [hr]))
      have hle := (hx.consistent.handle x.time x.event).attempt_le q hq
      rw [hqa, hza] at hle
      exact absurd hlt (Nat.not_lt.mpr hle)
  · rw [lastReport_cons hr] at hold
    obtain rfl := Option.some.inj hold
    cases hmiss.symm.trans hleaves.1

end Course

theorem Verdict.status_lost (v : Verdict) {r : Report} {seq : Nat} (h : r.Misses seq) :
    ∃ rest, (v.update r).status = lossOf seq rest := by
  have hafter : Axis.after (v.journal, v.journalFailure) r.journal = (.failed, some (Failure.lost seq).message) := by
    rw [show r.journal = _ from h]
    rfl
  have hfailed : (v.update r).journal = .failed := congrArg Prod.fst hafter
  have hreason : (v.update r).journalFailure = some (Failure.lost seq).message := congrArg Prod.snd hafter
  obtain ⟨lines, hlines⟩ : ∃ lines, (v.update r).complaints = ("journal: " ++ (Failure.lost seq).message) :: lines := by
    rw [complaints, hreason]
    exact ⟨_, rfl⟩
  rw [status, if_pos (Or.inl hfailed), hlines]
  cases lines with
  | nil => exact ⟨"", by simp [lossOf, storeFailure]⟩
  | cons line lines =>
    exact ⟨"; " ++ String.intercalate "; " (line :: lines), by simp [lossOf, storeFailure, String.append_assoc]⟩

/-- A loss is told exactly if the last report left a marker and the replay of this round trip lacks it, whatever
came of the round trips in between. Such a round trip writes nothing, and the same loss is told again only after
the marker was written anew. -/
theorem lost_once {settings : Settings} {start now : Nat} {newer older : List Moment} {x : Moment} {m : Machine}
    {hub : Hub} {r : Report} (h : Course settings start now (newer ++ x :: older) m hub)
    (hr : x.finding? = some (.report r)) (seq : Nat) :
    (r.Misses seq ↔ (∃ r₀, lastReport older = some r₀ ∧ r₀.Leaves seq) ∧
      ∃ y ∈ x :: older, y.attempt = x.attempt ∧ ∃ seqs, y.Replays seqs ∧ seq ∉ seqs) ∧
    (r.Misses seq →
      (∃ rest, (x.machine.handle x.time x.event).2 = some (lossOf seq rest) ∧
        (newer = [] → hub.current = lossOf seq rest)) ∧
      (∀ y ∈ newer ++ x :: older, y.attempt = x.attempt → ∀ w, y.after.worker? = some w → w.Reads) ∧
      ∀ later y between r', newer = later ++ y :: between → y.finding? = some (.report r') → r'.Misses seq →
        ∃ z ∈ between, z.Writes seq) := by
  obtain ⟨_, hx⟩ := h.before
  refine ⟨hx.misses_iff hr seq, fun hmiss => ⟨?_, fun y hy hya w hw => ?_, ?_⟩⟩
  · obtain ⟨rest, hstatus⟩ := x.machine.verdict.status_lost hmiss
    have hled : (x.machine.handle x.time x.event).2 = some (lossOf seq rest) := by
      rw [Machine.handle_status, show x.machine.finding? x.event = _ from hr, ← hstatus]
      rfl
    refine ⟨rest, hled, ?_⟩
    rintro rfl
    exact h.current_newest hled
  · obtain ⟨hover, hreads⟩ := hx.reading_of_misses hr hmiss
    obtain hy | hy := List.mem_append.mp hy
    · simp [h.over_of_over hover hy hya] at hw
    · obtain rfl | hy := List.mem_cons.mp hy
      · simp [hover] at hw
      · exact hreads y hy hya w hw
  · rintro later y between r' rfl hr' hagain
    rw [List.append_assoc, List.cons_append] at h
    exact h.written_anew hr hmiss hr' hagain

def emptied : Machine.Answers
  | .load => .ok (some 1)
  | .replay => .ok []
  | .append .. | .save .. | .prune _ => .ok ()

/-- Once the marker of a first round trip that succeeded is removed, the second one tells its loss. -/
theorem lost_after_removal : ∃ now newer x older m hub r,
    Course ⟨"p", .seconds 5, .seconds 10⟩ 0 now (newer ++ x :: older) m hub ∧
      x.finding? = some (.report r) ∧ r.Misses 1 ∧ ∃ rest, hub.current = lossOf 1 rest := by
  have hlost := Course.of_script ⟨"p", .seconds 5, .seconds 10⟩
    ([.answer emptied, .answer emptied, .timer, .exit] ++ List.replicate 4 (.answer Course.emptyStore) ++ [.timer]) rfl
  obtain ⟨hiff, htells⟩ := lost_once (show Course _ _ _ ([] ++ _) _ _ from hlost) rfl 1
  have hmiss := hiff.mpr ⟨⟨_, rfl, rfl, rfl⟩, _, List.mem_cons_self, rfl, [],
    ⟨_, _, _, rfl, rfl, rfl, rfl⟩, by simp⟩
  obtain ⟨⟨rest, -, hcurrent⟩, -⟩ := htells hmiss
  exact ⟨_, [], _, _, _, _, _, hlost, rfl, hmiss, rest, hcurrent rfl⟩

end HealthSignal.RoundTrip
