import HealthSignal.Proofs.RoundTrip.Exchange

/-! The loss of a snapshot. What a round trip must find again is what the last report on the snapshots has saved.
A refused entry leaves that as it is; a replay that fails makes it be forgotten. -/
namespace HealthSignal.RoundTrip

namespace Report

def Saves (r : Report) (seq : Nat) : Prop := r.snapshot = some (.ok ()) ∧ r.snapshotted = some seq

def Loses (r : Report) (seq : Nat) : Prop := r.snapshot = some (.error (.lost seq))

end Report

def Moment.report? (x : Moment) : Option Report :=
  match x.finding? with
  | some (.report r) => some r
  | _ => none

theorem Moment.report?_eq_some {x : Moment} {r : Report} : x.report? = some r ↔ x.finding? = some (.report r) := by
  unfold report?
  split
  · next r' hr => simp [hr]
  · next hr => simpa using hr r

def lastOnSnapshots (history : List Moment) : Option Report :=
  history.findSome? fun x => x.report?.filter (·.snapshot.isSome)

section Last
variable {history newer older : List Moment} {x : Moment} {r : Report}

theorem lastOnSnapshots_cons (hr : x.finding? = some (.report r)) (hs : r.snapshot ≠ none) :
    lastOnSnapshots (x :: history) = some r := by
  have hsome : r.snapshot.isSome = true := Option.isSome_iff_ne_none.mpr hs
  simp [lastOnSnapshots, Moment.report?_eq_some.mpr hr, hsome, Option.filter_some]

theorem lastOnSnapshots_skip (h : ∀ r, x.finding? = some (.report r) → r.snapshot = none) :
    lastOnSnapshots (x :: history) = lastOnSnapshots history := by
  have hnone : x.report?.filter (·.snapshot.isSome) = none := by
    cases hr : x.report? with
    | none => rfl
    | some r => simp [h r (Moment.report?_eq_some.mp hr), Option.filter_some]
  simp only [lastOnSnapshots, List.findSome?_cons, hnone]

/-- Reports that leave the snapshots alone do not matter. -/
theorem lastOnSnapshots_append (h : ∀ y ∈ newer, ∀ r, y.finding? = some (.report r) → r.snapshot = none) :
    lastOnSnapshots (newer ++ older) = lastOnSnapshots older := by
  induction newer with
  | nil => rfl
  | cons y newer ih =>
    obtain ⟨hy, hnewer⟩ := List.forall_mem_cons.mp h
    rw [List.cons_append, lastOnSnapshots_skip hy, ih hnewer]

/-- A later report on the snapshots takes the place of the earlier ones. -/
theorem lastOnSnapshots_newer (older : List Moment) (hx : x ∈ newer) (hr : x.finding? = some (.report r))
    (hs : r.snapshot ≠ none) :
    ∃ y ∈ newer, ∃ r', y.finding? = some (.report r') ∧ lastOnSnapshots (newer ++ older) = some r' := by
  induction newer with
  | nil => cases hx
  | cons y newer ih =>
    by_cases hy : ∀ r', y.finding? = some (.report r') → r'.snapshot = none
    · obtain rfl | hx := List.mem_cons.mp hx
      · exact absurd (hy r hr) hs
      · obtain ⟨z, hz, r', hr', hlast⟩ := ih hx
        exact ⟨z, List.mem_cons_of_mem y hz, r', hr', by rw [List.cons_append, lastOnSnapshots_skip hy, hlast]⟩
    · simp only [Classical.not_forall] at hy
      obtain ⟨r', hr', hs'⟩ := hy
      exact ⟨y, List.mem_cons_self, r', hr', lastOnSnapshots_cons hr' hs'⟩

end Last

theorem Expectation.update_snapshot (e : Expectation) {r : Report} (h : r.snapshot ≠ none) (seq : Nat) :
    (e.update r).snapshot = some seq ↔ r.Saves seq := by
  simp only [update, after, Report.Saves]
  split
  · next hr => simp [hr]
  · next hr => simp [hr]
  · next hr => exact absurd hr h

def Reclaims (history : List Moment) (m : Machine) : Prop :=
  ∀ seq, m.expect.snapshot = some seq ↔ ∃ r, lastOnSnapshots history = some r ∧ r.Saves seq

theorem Reclaims.handle {history : List Moment} {m : Machine} (h : Reclaims history m) (now : Nat) (e : Event) :
    Reclaims (⟨now, m, e⟩ :: history) (m.handle now e).1 := by
  intro seq
  obtain ⟨r, hf, heq⟩ | ⟨hf, heq⟩ := (m.handle_turn now e).expect
  · by_cases hs : r.snapshot = none
    · rw [heq, lastOnSnapshots_skip (x := ⟨now, m, e⟩) fun r' hr' => ?_]
      · simpa [Expectation.update, Expectation.after, hs] using h seq
      · obtain rfl : r = r' := by simpa using hf.symm.trans hr'
        exact hs
    · rw [heq, m.expect.update_snapshot hs, lastOnSnapshots_cons (x := ⟨now, m, e⟩) hf hs]
      simp
  · rw [heq, lastOnSnapshots_skip (x := ⟨now, m, e⟩) fun r hr => absurd hr (hf r)]
    exact h seq

namespace Worker
variable {w : Worker} {answers : Machine.Answers} {r : Report} {next : Option Stage} {seq : Nat}

theorem Steps.loses_iff (h : w.Steps answers (.report r next)) :
    r.Loses seq ↔ ∃ n, w.stage = .replaying (.error (.lost seq)) ∨ w.stage = .appending (.error (.lost seq)) n := by
  cases h with
  | @missed recovered seqs n hs | @unread recovered e hs =>
    cases recovered <;> simp [Report.Loses, hs, outcome, Except.map]
  | refused hs | refusedToo hs | appendedOnly hs | unsaved hs | saved hs _ =>
    simp [Report.Loses, Report.success, hs]

theorem Steps.saves (h : w.Steps answers (.report r next)) (hr : r.snapshotted = some seq) : r.Saves seq := by
  cases h with
  | saved => exact ⟨rfl, hr⟩
  | _ => cases hr

/-- A report without news of the snapshots is of a refused entry. -/
theorem Steps.snapshot_eq_none_iff (h : w.Steps answers (.report r next)) (hsaved : r.snapshotted = none)
    (hfailed : ∀ f, r.snapshot ≠ some (.error f)) : r.snapshot = none ↔ w.call ≠ .replay := by
  cases h with
  | missed hs | unread hs => simp [call, hs, callOf]
  | refused hs => simp [call, hs, callOf]
  | refusedToo | appendedOnly | unsaved => exact absurd rfl (hfailed _)
  | saved => cases hsaved

end Worker

namespace Course
variable {settings : Settings} {start now : Nat} {history newer older : List Moment} {m : Machine} {hub : Hub}
  {x : Moment} {r : Report} {seq : Nat}

theorem reclaims (h : Course settings start now history m hub) : Reclaims history m := by
  induction h with
  | start => exact fun seq => by simp [Machine.waiting, Machine.new, Expectation.nothing, lastOnSnapshots]
  | pass _ _ _ ih => exact ih
  | mail _ _ ih => exact ih
  | event _ _ ih => exact ih.handle _ _
  | stop _ ih => exact ih.handle _ .stop

/-- What comes to light with a report, and what its worker knew. -/
theorem report_steps (h : Course settings start now older x.machine hub) (hr : x.finding? = some (.report r)) :
    ∃ w d answers next, x.machine.phase = .awaiting w d ∧ x.event = .answer answers ∧
      w.Steps answers (.report r next) ∧ Backing older x.machine w ∧ w.expect = x.machine.expect ∧
      x.attempt = x.machine.attempt := by
  obtain ⟨w, d, answers, next, hp, he, hres, -, htrip, hattempt⟩ := h.report_heeds hr
  exact ⟨w, d, answers, next, hp, he, hres ▸ w.resume_steps answers,
    h.backing w (by rw [Machine.worker?, hp]), htrip.expect, hattempt⟩

theorem loses_iff (h : Course settings start now older x.machine hub) (hr : x.finding? = some (.report r)) :
    r.Loses seq ↔ (∃ r₀, lastOnSnapshots older = some r₀ ∧ r₀.Saves seq) ∧
      ∃ found, Heard (x :: older) x.attempt .load (.ok found) ∧ ∀ n, found = some n → n < seq := by
  obtain ⟨w, d, answers, next, hp, he, hsteps, hbacking, hexpect, hattempt⟩ := h.report_steps hr
  rw [← h.reclaims seq, ← hexpect, hattempt, hsteps.loses_iff]
  have hbacked := hbacking.backed
  constructor
  · rintro ⟨n, hs | hs⟩
    · rw [hs] at hbacked
      obtain ⟨a, ha, heq⟩ := hbacked
      obtain ⟨hlooks, found, rfl, hbelow⟩ := Worker.recoverSnapshot_lost.mp heq.symm
      exact ⟨hlooks, found, ha.cons x, hbelow⟩
    · rw [hs] at hbacked
      obtain ⟨⟨a, ha, heq⟩, -⟩ := hbacked
      obtain ⟨hlooks, found, rfl, hbelow⟩ := Worker.recoverSnapshot_lost.mp heq.symm
      exact ⟨hlooks, found, ha.cons x, hbelow⟩
  · rintro ⟨hlooks, found, hheard, hbelow⟩
    have hlost := Worker.recoverSnapshot_lost.mpr ⟨hlooks, found, rfl, hbelow⟩
    have hrecalls : w.stage.Recalls (Worker.recoverSnapshot w.expect.snapshot (.ok found)) := by
      obtain ⟨-, hx⟩ | hheard := heard_cons.mp hheard
      · -- The answer to a load is never followed by a report.
        obtain ⟨w', d', answers', hp', -, hc, -⟩ := hx
        obtain ⟨rfl, -⟩ := Phase.awaiting.inj (hp.symm.trans hp')
        cases hsteps with
        | missed hs | unread hs | refused hs | refusedToo hs | appendedOnly hs | unsaved hs | saved hs =>
          simp [Worker.call, hs, Worker.callOf] at hc
      · exact hbacking.recalls _ hheard
    rw [hlost] at hrecalls
    cases hs : w.stage with
    | loading => rw [hs] at hrecalls; exact hrecalls.elim
    | replaying recovered =>
      rw [hs] at hrecalls
      exact ⟨0, Or.inl (congrArg Stage.replaying hrecalls)⟩
    | appending recovered n =>
      rw [hs] at hrecalls
      exact ⟨n, Or.inr (congrArg (Stage.appending · n) hrecalls)⟩
    | saving n | pruning n =>
      rw [hs] at hrecalls
      obtain ⟨k, hk⟩ := hrecalls
      cases hk

/-- A report that neither saved a snapshot nor has one that failed says nothing of the snapshots, unless it was
made at the replay. -/
theorem snapshot_eq_none_iff (h : Course settings start now older x.machine hub) (hr : x.finding? = some (.report r))
    (hsaved : r.snapshotted = none) (hfailed : ∀ f, r.snapshot ≠ some (.error f)) :
    r.snapshot = none ↔ ¬∃ a, x.Answers .replay a := by
  obtain ⟨w, d, answers, next, hp, he, hsteps, -⟩ := h.report_steps hr
  rw [hsteps.snapshot_eq_none_iff hsaved hfailed]
  refine not_congr ⟨fun hc => ⟨_, w, d, answers, hp, he, hc, rfl⟩, ?_⟩
  rintro ⟨_, w', d', _, hp', -, hc, -⟩
  obtain ⟨rfl, -⟩ := Phase.awaiting.inj (hp.symm.trans hp')
  exact hc

end Course

/-- A loss is told exactly if the last report on the snapshots has saved one and the load of this round trip finds
none, or a lower one. Such a snapshot stays looked for, whatever came of the round trips since it was saved, as long
as none of them reported on the snapshots; those that did, without a snapshot that failed or was saved, are those
whose replay had failed. -/
theorem snapshot_loss_told {settings : Settings} {start now : Nat} {newer older : List Moment} {x : Moment}
    {m : Machine} {hub : Hub} {r : Report} (h : Course settings start now (newer ++ x :: older) m hub)
    (hr : x.finding? = some (.report r)) (seq : Nat) :
    (r.Loses seq ↔ (∃ r₀, lastOnSnapshots older = some r₀ ∧ r₀.Saves seq) ∧
      ∃ found, Heard (x :: older) x.attempt .load (.ok found) ∧ ∀ n, found = some n → n < seq) ∧
    ∀ between z earlier r₀, older = between ++ z :: earlier → z.finding? = some (.report r₀) →
      r₀.snapshotted = some seq →
      (∀ y ∈ between, ∀ r', y.finding? = some (.report r') →
        r'.snapshotted = none ∧ ∀ f, r'.snapshot ≠ some (.error f)) →
      (∃ found, Heard (x :: older) x.attempt .load (.ok found) ∧ ∀ n, found = some n → n < seq) →
      (r.Loses seq ↔ ∀ y ∈ between, ∀ r', y.finding? = some (.report r') → ¬∃ a, y.Answers .replay a) := by
  obtain ⟨_, hx⟩ := h.before
  refine ⟨hx.loses_iff hr, ?_⟩
  rintro between z earlier r₀ rfl hz hsaved hbetween hfound
  rw [hx.loses_iff hr, and_iff_left hfound]
  have hreplay : ∀ y ∈ between, ∀ r', y.finding? = some (.report r') →
      (r'.snapshot = none ↔ ¬∃ a, y.Answers .replay a) := by
    intro y hy r' hr'
    obtain ⟨late, early, rfl⟩ := List.append_of_mem hy
    rw [List.append_assoc, List.cons_append] at hx
    obtain ⟨_, hy'⟩ := hx.before
    obtain ⟨hnone, hfailed⟩ := hbetween y hy r' hr'
    exact hy'.snapshot_eq_none_iff hr' hnone hfailed
  obtain ⟨_, hz'⟩ := hx.before
  obtain ⟨_, _, _, _, -, -, hsteps, -⟩ := hz'.report_steps hz
  have hsaves := hsteps.saves hsaved
  constructor
  · rintro ⟨r₁, hlast, hr₁⟩ y hy r' hr'
    rw [← hreplay y hy r' hr']
    cases hs : r'.snapshot with
    | none => rfl
    | some o =>
      obtain ⟨y', hy', r₂, hr₂, hlast'⟩ := lastOnSnapshots_newer (z :: earlier) hy hr' (by simp [hs])
      obtain rfl := Option.some.inj (hlast.symm.trans hlast')
      cases (hbetween y' hy' r₁ hr₂).1.symm.trans hr₁.2
  · intro hnone
    refine ⟨r₀, ?_, hsaves⟩
    rw [lastOnSnapshots_append fun y hy r' hr' => (hreplay y hy r' hr').mpr (hnone y hy r' hr')]
    exact lastOnSnapshots_cons hz (by simp [hsaves.1])

/-- Once the snapshot of a first round trip that succeeded is removed, the second one tells its loss. -/
theorem lost_after_stripping : ∃ now x older m hub r,
    Course ⟨"p", .seconds 5, .seconds 10⟩ 0 now (x :: older) m hub ∧ x.finding? = some (.report r) ∧ r.Loses 1 := by
  let stripped := Course.storeOf none (.ok [1])
  have hcourse := Course.of_script ⟨"p", .seconds 5, .seconds 10⟩
    (.answer stripped :: .answer stripped :: .answer stripped :: .timer :: .exit ::
      (List.replicate 4 (.answer Course.emptyStore) ++ [.timer])) rfl
  obtain ⟨hiff, -⟩ := snapshot_loss_told (show Course _ _ _ ([] ++ _) _ _ from hcourse) rfl 1
  refine ⟨_, _, _, _, _, _, hcourse, rfl, hiff.mpr ⟨⟨_, rfl, rfl, rfl⟩, none, ?_, by simp⟩⟩
  exact ⟨_, List.mem_cons_of_mem _ (List.mem_cons_of_mem _ List.mem_cons_self), rfl, _, _, _, rfl, rfl, rfl, rfl⟩

/-- A replay that fails hides the loss of a snapshot: the third round trip finds an empty store and succeeds. -/
theorem not_told_after_unread : ¬∀ (settings : Settings) (start now seq : Nat) (newer between earlier : List Moment)
    (x z : Moment) (m : Machine) (hub : Hub) (r r₀ : Report),
    Course settings start now (newer ++ x :: (between ++ z :: earlier)) m hub →
    z.finding? = some (.report r₀) → r₀.snapshotted = some seq → x.finding? = some (.report r) →
    (∀ y ∈ between, ∀ r', y.finding? = some (.report r') →
      r'.snapshotted = none ∧ ∀ f, r'.snapshot ≠ some (.error f)) →
    (∃ found, Heard (x :: (between ++ z :: earlier)) x.attempt .load (.ok found) ∧ ∀ n, found = some n → n < seq) →
    r.Loses seq := by
  intro h
  let unreadable := Course.storeOf (some 1) (.error ⟨.reading, "gone"⟩)
  have hcourse := Course.of_script ⟨"p", .seconds 5, .seconds 10⟩
    (List.replicate 4 (.answer Course.emptyStore) ++ .timer :: .exit :: .answer unreadable :: .answer unreadable ::
      .timer :: .exit :: (List.replicate 4 (.answer Course.emptyStore) ++ [.timer])) rfl
  have hlost := h _ _ _ 1 [] [_, _, _, _, _, _, _, _, _] _ _ _ _ _ _ _ hcourse rfl rfl rfl ?_ ⟨none, ?_, by simp⟩
  · cases hlost
  · simp only [List.forall_mem_cons]
    refine ⟨?_, ?_, ?_, ?_, ?_, ?_, ?_, ?_, ?_, by simp⟩
    all_goals
      intro r' hr'
      cases hr'
    exact ⟨rfl, fun f hf => by cases hf⟩
  · exact ⟨_, List.mem_cons_of_mem _ (List.mem_cons_of_mem _ (List.mem_cons_of_mem _ List.mem_cons_self)),
      rfl, _, _, _, rfl, rfl, rfl, rfl⟩

end HealthSignal.RoundTrip
