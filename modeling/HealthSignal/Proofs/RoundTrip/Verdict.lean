import HealthSignal.Proofs.RoundTrip.Course

/-! The status of a persistence probe is the verdict on the round trip that was evaluated last. What the
axes held from earlier round trips does not show. -/
namespace HealthSignal.RoundTrip

def latest : List Moment → Option (Moment × Finding)
  | [] => none
  | x :: older =>
    match x.finding? with
    | some f => some (x, f)
    | none => latest older

def Stored (history : List Moment) (n : Nat) : Prop :=
  ∀ k ∈ [CallKind.append, CallKind.save], ∃ x ∈ history, x.attempt = n ∧ x.Acknowledges k

def Report.Failed (r : Report) : Prop :=
  (∃ f, r.journal = some (.error f)) ∨ ∃ f, r.snapshot = some (.error f)

def storeFailure (text : String) : Status := .bad ("persistence store failure: " ++ text)

theorem Report.not_failed_success (seq : Nat) : ¬(Report.success seq).Failed := by
  simp [Failed, success]

inductive Worker.Resumed : Stage → Bool → Progress → Prop
  | loaded {recovered : Except Failure Nat} {ok : Bool} :
    Resumed .loading ok (.ask (.replaying recovered))
  | replayed {recovered : Except Failure Nat} {seq : Nat} {ok : Bool} :
    Resumed (.replaying recovered) ok (.ask (.appending recovered seq))
  | unreplayed {recovered : Except Failure Nat} {r : Report} {ok : Bool} : r.Failed →
    Resumed (.replaying recovered) ok (.report r none)
  | appended {recovered : Except Failure Nat} {seq : Nat} :
    Resumed (.appending recovered seq) true (.ask (.saving seq))
  | unappended {recovered : Except Failure Nat} {seq : Nat} {r : Report} {ok : Bool} : r.Failed →
    Resumed (.appending recovered seq) ok (.report r none)
  | saved {seq : Nat} {next : Option Stage} :
    Resumed (.saving seq) true (.report (.success seq) next)
  | unsaved {seq : Nat} {r : Report} : r.Failed → Resumed (.saving seq) false (.report r none)
  | pruned {seq : Nat} {ok : Bool} : Resumed (.pruning seq) ok .exit

theorem Worker.Steps.resumed {w : Worker} {answers : Machine.Answers} {p : Progress} (h : w.Steps answers p) :
    Resumed w.stage (answers w.call).isOk p := by
  cases h with
  | loaded hs => exact hs ▸ .loaded
  | replayed hs => exact hs ▸ .replayed
  | missed hs | unread hs => exact hs ▸ .unreplayed (Or.inl ⟨_, rfl⟩)
  | refused hs | refusedToo hs => exact hs ▸ .unappended (Or.inl ⟨_, rfl⟩)
  | appended hs ha =>
    rw [isOk_call (by rw [call, hs, callOf]) ha, hs]
    exact .appended
  | appendedOnly hs => exact hs ▸ .unappended (Or.inr ⟨_, rfl⟩)
  | unsaved hs ha =>
    rw [isOk_call (by rw [call, hs, callOf]) ha, hs]
    exact .unsaved (Or.inr ⟨_, rfl⟩)
  | saved hs ha =>
    rw [isOk_call (by rw [call, hs, callOf]) ha, hs]
    exact .saved
  | pruned hs => exact hs ▸ .pruned

theorem Worker.resume_turn (w : Worker) (answers : Machine.Answers) :
    Resumed w.stage (answers w.call).isOk (w.resume (answers w.call)) :=
  (w.resume_steps answers).resumed

/-- A report is of a success, whose snapshot has just been acknowledged, or has a failed axis. -/
theorem Worker.resume_report {w : Worker} {answers : Machine.Answers} {r : Report} {next : Option Stage}
    (h : w.resume (answers w.call) = .report r next) :
    (∃ seq, w.stage = .saving seq ∧ (answers w.call).isOk = true ∧ r = .success seq) ∨
      r.Failed ∧ ¬(w.call.kind = .save ∧ (answers w.call).isOk = true) := by
  have hturn := w.resume_turn answers
  rw [h] at hturn
  rw [show w.call.kind = (callOf w.marker w.stage).kind from rfl]
  generalize (answers w.call).isOk = ok, w.stage = stage at hturn ⊢
  cases hturn with
  | saved => exact Or.inl ⟨_, rfl, rfl, rfl⟩
  | unsaved hr => exact Or.inr ⟨hr, by simp⟩
  | unreplayed hr | unappended hr => exact Or.inr ⟨hr, by simp [callOf, Call.kind]⟩

/-- A worker asks for a snapshot only after its entry was acknowledged. -/
theorem Worker.resume_ask {w : Worker} {answers : Machine.Answers} {stage : Stage}
    (h : w.resume (answers w.call) = .ask stage) : w.call.kind ≠ .save ∧
      ∀ seq, stage = .saving seq → w.call.kind = .append ∧ (answers w.call).isOk = true := by
  have hturn := w.resume_turn answers
  rw [h] at hturn
  rw [show w.call.kind = (callOf w.marker w.stage).kind from rfl]
  generalize (answers w.call).isOk = ok, w.stage = stage' at hturn ⊢
  cases hturn with
  | loaded | replayed => exact ⟨by simp [callOf, Call.kind], by simp⟩
  | appended => exact ⟨by simp [callOf, Call.kind], fun _ _ => ⟨rfl, rfl⟩⟩

theorem Verdict.status_failed (v : Verdict) {r : Report} (h : r.Failed) :
    ∃ text, (v.update r).status = storeFailure text := by
  have hc : (v.update r).journal = .failed ∨ (v.update r).snapshot = .failed := by
    obtain ⟨f, hf⟩ | ⟨f, hf⟩ := h
    · exact Or.inl (by simp [update, hf, Axis.after])
    · exact Or.inr (by simp [update, hf, Axis.after])
  exact ⟨_, by rw [status, if_pos hc]; rfl⟩

/-- A round trip in progress has brought nothing to light, and its snapshot was not acknowledged yet. Once
it saves a snapshot, its entry was acknowledged. -/
structure Consistent (history : List Moment) (m : Machine) : Prop where
  attempt_le : ∀ x ∈ history, x.attempt ≤ m.attempt
  open_lt : ∀ w d, m.phase = .awaiting w d → ∀ x ∈ history,
    x.finding?.isSome = true ∨ x.Acknowledges .save → x.attempt < m.attempt
  appended : ∀ w d seq, m.phase = .awaiting w d → w.stage = .saving seq →
    ∃ x ∈ history, x.attempt = m.attempt ∧ x.Acknowledges .append

theorem Moment.Acknowledges.awaiting {x : Moment} {k : CallKind} (h : x.Acknowledges k) :
    ∃ w d, x.machine.phase = .awaiting w d ∧ w.call.kind = k := by
  obtain ⟨w, d, _, hp, -, hk, -⟩ := h
  exact ⟨w, d, hp, hk⟩

theorem Consistent.handle {history : List Moment} {m : Machine} (h : Consistent history m) (now : Nat)
    (e : Event) : Consistent (⟨now, m, e⟩ :: history) (m.handle now e).1 := by
  have hturn := m.handle_turn now e
  have hattempt : Moment.attempt ⟨now, m, e⟩ = (m.handle now e).1.attempt := rfl
  have hfinding : Moment.finding? ⟨now, m, e⟩ = m.finding? e := rfl
  generalize (m.handle now e).1 = m', m.finding? e = f at *
  have hle : m.attempt ≤ m'.attempt := hturn.attempt_le
  have hall : ∀ x ∈ (⟨now, m, e⟩ :: history : List Moment), x.attempt ≤ m'.attempt := by
    intro x hx
    obtain rfl | hx := List.mem_cons.mp hx
    · exact Nat.le_of_eq hattempt
    · exact Nat.le_trans (h.attempt_le x hx) hle
  cases hturn with
  | @ask w d answers stage hp hr =>
    obtain ⟨hsave, happend⟩ := Worker.resume_ask hr
    refine ⟨hall, fun w' d' hp' x hx hor => ?_, fun w' d' seq hp' hstage => ?_⟩
    · obtain rfl | hx := List.mem_cons.mp hx
      · obtain hf | hack := hor
        · simp [hfinding] at hf
        · obtain ⟨w₁, d₁, hp₁, hk⟩ := hack.awaiting
          obtain ⟨rfl, -⟩ := Phase.awaiting.inj (hp.symm.trans hp₁)
          exact absurd hk hsave
      · exact h.open_lt w d hp x hx hor
    · obtain ⟨rfl, -⟩ := Phase.awaiting.inj hp'
      obtain ⟨hk, hok⟩ := happend seq hstage
      exact ⟨_, List.mem_cons_self, hattempt, w, d, answers, hp, rfl, hk, hok⟩
  | @begin t hp _ =>
    refine ⟨hall, fun w' d' hp' x hx hor => ?_, fun w' d' seq hp' hstage => ?_⟩
    · obtain rfl | hx := List.mem_cons.mp hx
      · obtain hf | hack := hor
        · simp [hfinding] at hf
        · obtain ⟨w₁, d₁, hp₁, -⟩ := hack.awaiting
          simp [hp] at hp₁
      · exact Nat.lt_succ_of_le (h.attempt_le x hx)
    · obtain ⟨rfl, -⟩ := Phase.awaiting.inj hp'
      simp [Worker.start] at hstage
  | idle hw =>
    have hnot : ∀ w d, m.phase ≠ .awaiting w d := fun w d hp => by simp [Machine.worker?, hp] at hw
    exact ⟨hall, fun w d hp => absurd hp (hnot w d), fun w d seq hp => absurd hp (hnot w d)⟩
  | _ =>
    exact ⟨hall, fun w d hp => by simp [Machine.delay, Machine.stop] at hp,
      fun w d seq hp => by simp [Machine.delay, Machine.stop] at hp⟩

inductive Verified (settings : Settings) (history : List Moment) : Status → Prop
  | nothing : latest history = none → Verified settings history warmingUp
  | success {x : Moment} {r : Report} : latest history = some (x, .report r) → ¬r.Failed →
    Stored history x.attempt → Verified settings history succeeded
  | failure {x : Moment} {r : Report} (text : String) : latest history = some (x, .report r) →
    r.Failed → ¬Stored history x.attempt → Verified settings history (storeFailure text)
  | timeout {x : Moment} : latest history = some (x, .timeout) →
    Verified settings history (timedOut settings.timeout)
  | crash {x : Moment} : latest history = some (x, .crash) → Verified settings history crashed

theorem latest_mem {history : List Moment} {x : Moment} {f : Finding}
    (h : latest history = some (x, f)) : x ∈ history ∧ x.finding? = some f := by
  induction history with
  | nil => simp [latest] at h
  | cons y older ih =>
    simp only [latest] at h
    split at h
    · next g hg =>
      obtain ⟨rfl, rfl⟩ : y = x ∧ g = f := by simpa using h
      exact ⟨List.mem_cons_self, hg⟩
    · exact ⟨List.mem_cons_of_mem y (ih h).1, (ih h).2⟩

/-- After the end of a round trip nothing of it is acknowledged. -/
theorem Consistent.stored_cons {history : List Moment} {m : Machine} (h : Consistent history m) {now : Nat}
    {e : Event} {x : Moment} {f : Finding} (hx : latest history = some (x, f)) :
    Stored (⟨now, m, e⟩ :: history) x.attempt ↔ Stored history x.attempt := by
  obtain ⟨hmem, hf⟩ := latest_mem hx
  refine ⟨fun hs k hk => ?_, fun hs k hk => ?_⟩
  · obtain ⟨y, hy, hya, hack⟩ := hs k hk
    obtain rfl | hy := List.mem_cons.mp hy
    · obtain ⟨w, d, hp, -⟩ := hack.awaiting
      have hlt := h.open_lt w d hp x hmem (Or.inl (by simp [hf]))
      have hle := (m.handle_turn now e).attempt_le
      rw [← hya] at hlt
      exact absurd hlt (Nat.not_lt.mpr hle)
    · exact ⟨y, hy, hya, hack⟩
  · obtain ⟨y, hy, hya⟩ := hs k hk
    exact ⟨y, List.mem_cons_of_mem _ hy, hya⟩

namespace Course
variable {settings : Settings} {start now : Nat} {history : List Moment} {m : Machine} {hub : Hub}

theorem consistent (h : Course settings start now history m hub) : Consistent history m := by
  induction h with
  | start => exact ⟨by simp, by simp, by simp [Machine.waiting]⟩
  | pass _ _ _ ih => exact ih
  | mail _ _ ih => exact ih
  | event _ _ ih => exact ih.handle _ _
  | stop _ ih => exact ih.handle _ .stop

theorem verified_report (hc : Consistent history m) {e : Event} {r : Report}
    (hr : m.finding? e = some (.report r)) :
    Verified settings (⟨now, m, e⟩ :: history) (m.verdict.update r).status := by
  obtain ⟨w, d, answers, next, hp, rfl, hres⟩ := Machine.finding_report hr
  have hlatest : latest (⟨now, m, .answer answers⟩ :: history) =
      some (⟨now, m, .answer answers⟩, .report r) := by
    simp only [latest, Moment.finding?, hr]
  have hattempt : Moment.attempt ⟨now, m, .answer answers⟩ = m.attempt :=
    (m.handle_turn now (.answer answers)).attempt_eq (by simp)
  obtain ⟨seq, hstage, hok, rfl⟩ | ⟨hfailed, hnot⟩ := Worker.resume_report hres
  · refine .success hlatest (Report.not_failed_success seq) fun k hk => ?_
    obtain rfl | rfl : k = .append ∨ k = .save := by simpa using hk
    · obtain ⟨x, hx, hxa, hack⟩ := hc.appended w d seq hp hstage
      exact ⟨x, List.mem_cons_of_mem _ hx, hxa.trans hattempt.symm, hack⟩
    · refine ⟨_, List.mem_cons_self, rfl, w, d, answers, hp, rfl, ?_, hok⟩
      rw [Worker.call, hstage]
      rfl
  · obtain ⟨text, htext⟩ := m.verdict.status_failed hfailed
    rw [htext]
    refine .failure text hlatest hfailed fun hs => ?_
    obtain ⟨x, hx, hxa, hack⟩ := hs .save (by simp)
    obtain rfl | hx := List.mem_cons.mp hx
    · obtain ⟨w', d', answers', hp', ⟨⟩, hk, hok⟩ := hack
      obtain ⟨rfl, -⟩ := Phase.awaiting.inj (hp.symm.trans hp')
      exact hnot ⟨hk, hok⟩
    · have hlt := hc.open_lt w d hp x hx (Or.inr hack)
      rw [hxa, hattempt] at hlt
      exact Nat.lt_irrefl _ hlt

/-- An event leads to the verdict on what it brings to light, and otherwise to none. -/
theorem verified_event (hc : Consistent history m) (hm : m.settings = settings) {s : Status}
    (hs : Verified settings history s) (e : Event) :
    Verified settings (⟨now, m, e⟩ :: history) ((m.handle now e).2.getD s) := by
  rw [Machine.handle_status]
  cases hf : m.finding? e with
  | none =>
    have hlatest : latest (⟨now, m, e⟩ :: history) = latest history := by
      simp only [latest, Moment.finding?, hf]
    cases hs with
    | nothing h => exact .nothing (hlatest.trans h)
    | success h hr hstored => exact .success (hlatest.trans h) hr ((hc.stored_cons h).mpr hstored)
    | failure text h hr hstored =>
      exact .failure text (hlatest.trans h) hr fun hs => hstored ((hc.stored_cons h).mp hs)
    | timeout h => exact .timeout (hlatest.trans h)
    | crash h => exact .crash (hlatest.trans h)
  | some f =>
    have hlatest : latest (⟨now, m, e⟩ :: history) = some (⟨now, m, e⟩, f) := by
      simp only [latest, Moment.finding?, hf]
    cases f with
    | report r => exact verified_report hc hf
    | timeout => exact hm ▸ .timeout hlatest
    | crash => exact .crash hlatest

theorem verified (h : Course settings start now history m hub) :
    Verified settings history hub.current := by
  induction h with
  | start => exact .nothing rfl
  | pass _ _ _ ih => exact ih
  | mail mail _ ih => rwa [Hub.current_deliver]
  | event h _ ih =>
    rw [Hub.current_follow]
    exact verified_event h.consistent h.settings_eq ih _
  | stop h ih => exact verified_event h.consistent h.settings_eq ih .stop

end Course

def letter (s : Status) : Option Char := s.message.toList[23]?

theorem letter_warmingUp : letter warmingUp = some 'h' := by decide

theorem letter_succeeded : letter succeeded = some 's' := by decide

theorem letter_crashed : letter crashed = some 'w' := by decide

theorem letter_storeFailure (text : String) : letter (storeFailure text) = some 'r' := by
  simp [letter, storeFailure, Status.bad]

theorem letter_timedOut (timeout : Duration) : letter (timedOut timeout) = some 't' := by
  simp [letter, timedOut, Status.bad]

/-- The status of a persistence probe is the verdict on the latest round trip that was evaluated: it is up
for a report of a round trip whose entry and snapshot were both acknowledged, and otherwise tells the
timeout, the crash or the failed axis. Before any of this it warms up, and never again. -/
theorem current_iff {settings : Settings} {start now : Nat} {history : List Moment} {m : Machine}
    {hub : Hub} (h : Course settings start now history m hub) :
    (hub.current.up = true ↔ ∃ x r, latest history = some (x, .report r) ∧ Stored history x.attempt) ∧
    (hub.current = timedOut settings.timeout ↔ ∃ x, latest history = some (x, .timeout)) ∧
    (hub.current = crashed ↔ ∃ x, latest history = some (x, .crash)) ∧
    ((∃ text, hub.current = storeFailure text) ↔
      ∃ x r, latest history = some (x, .report r) ∧ r.Failed) ∧
    (hub.current = warmingUp ↔ latest history = none) := by
  have hs := h.verified
  have hw := letter_warmingUp
  have hu := letter_succeeded
  have hc := letter_crashed
  have hf := letter_storeFailure
  have ht := letter_timedOut settings.timeout
  generalize hub.current = s at hs
  cases hs with
  | nothing hl =>
    have : warmingUp.up = false := rfl
    grind
  | success hl hr hst =>
    have : succeeded.up = true := rfl
    grind
  | failure text hl hr hst =>
    have : (storeFailure text).up = false := rfl
    grind
  | timeout hl =>
    have : (timedOut settings.timeout).up = false := rfl
    grind
  | crash hl =>
    have : crashed.up = false := rfl
    grind

/-- A first round trip that succeeds makes a probe go up, as its entry and its snapshot are stored. -/
theorem stored_of_up : ∃ history m hub, Course ⟨"p", .seconds 5, .seconds 10⟩ 0 0 history m hub ∧
    hub.current.up = true ∧ ∃ x r, latest history = some (x, .report r) ∧ Stored history x.attempt := by
  obtain ⟨history, m, hub, hcourse, hup, -⟩ := Course.succeeds
  have hup : hub.current.up = true := by rw [hup]; rfl
  exact ⟨history, m, hub, hcourse, hup, (current_iff hcourse).1.mp hup⟩

end HealthSignal.RoundTrip
