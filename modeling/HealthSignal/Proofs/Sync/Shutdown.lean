import HealthSignal.Proofs.Sync.Outcome

/-! How long a component takes to leave once it is asked to: the call in progress and the last one have a deadline
each, and no run starts any more. -/
namespace HealthSignal

namespace Aggregate

/-- The end of a probe is told only if the signal does not show down yet. -/
theorem hear_end {u : Update} (hu : u.status = none) (a : Aggregate) :
    (a.hear u).2 = none ∧ (a.hear u).1.shown = a.shown ∨
      a.shown ≠ some false ∧ (a.hear u).1.shown = some false := by
  obtain ⟨-, heq⟩ | ⟨slot, hslot, heq⟩ := a.hear_cases u
  · exact Or.inl (by rw [heq]; exact ⟨rfl, rfl⟩)
  · have hafter : slot.after u.status = .terminated := by
      rw [hu]
      cases slot <;> rfl
    have hdown : (a.setSlot u.key .terminated).isUp = false := by
      have hmem : (u.key, Slot.terminated) ∈ (a.setSlot u.key .terminated).slots :=
        List.mem_map.mpr ⟨_, mem_of_slot? hslot, if_pos rfl⟩
      rw [isUp, Bool.and_eq_false_iff, List.all_eq_false]
      exact Or.inr ⟨_, hmem, by simp [Slot.isUp]⟩
    rw [heq, hafter, decide, hdown]
    split
    · exact Or.inl ⟨rfl, rfl⟩
    · next hne => exact Or.inr ⟨hne, rfl⟩

end Aggregate

namespace Relay
variable {m : Relay} {limit bound bound' now later : Nat} {u : Update}

/-- The call in progress is over by some time, and the last call has another `limit`. -/
def Within (m : Relay) (limit bound now : Nat) : Prop :=
  match m.activity with
  | .idle => now ≤ bound
  | .calling deadline => now ≤ bound ∧ deadline ≤ bound
  | .closing _ deadline => now ≤ bound + limit ∧ deadline ≤ bound + limit
  | .ended _ => True

def lowered (m : Relay) : Bool := m.aggregate.any (·.shown == some false)

theorem Within.mono (h : m.Within limit bound now) (hle : bound ≤ bound') : m.Within limit bound' now := by
  unfold Within at *
  split at h <;> (first | trivial | omega)

theorem Within.close (h : now ≤ bound) (m : Relay) (outcome : RelayEnd) :
    (m.close limit now outcome).1.Within limit bound now :=
  ⟨Nat.le_add_right_of_le h, Nat.add_le_add_right h limit⟩

/-- At the end of a probe there is at most one more call before the last one, and none if the signal is down. -/
theorem take_end (hidle : m.activity = .idle) (hu : u.status = none) (h : now ≤ bound) :
    (m.take limit now u).1.Within limit bound now ∧ (m.take limit now u).1.lowered = m.lowered ∨
      m.aggregate ≠ none ∧ m.lowered = false ∧ (m.take limit now u).1.lowered = true ∧
        (m.take limit now u).1.Within limit (bound + limit) now := by
  obtain ⟨queue, aggregate, activity⟩ := m
  obtain rfl : activity = .idle := hidle
  cases aggregate with
  | none => exact Or.inl (by rw [take, hu]; exact ⟨.close h _ _, rfl⟩)
  | some a =>
    obtain ⟨hnone, hsame⟩ | ⟨hup, hdown⟩ := a.hear_end hu
    · refine Or.inl ?_
      obtain ⟨d, hd, -⟩ | ⟨-, heq | ⟨-, heq⟩⟩ := take_cases ⟨queue, some a, .idle⟩ limit now u
      · exact absurd (hd.symm.trans hnone) (by simp)
      · rw [heq]
        exact ⟨.close h _ _, by simp [close, lowered, heed, hsame]⟩
      · rw [heq]
        exact ⟨h, by simp [lowered, heed, hsame]⟩
    · have hlow : ∀ m' : Relay, m'.aggregate = some (a.hear u).1 → m'.lowered = true := fun m' hm' => by
        simp [lowered, hm', hdown]
      refine Or.inr ⟨by simp, by simpa [lowered] using hup, ?_⟩
      obtain ⟨d, -, heq⟩ | ⟨-, heq | ⟨-, heq⟩⟩ := take_cases ⟨queue, some a, .idle⟩ limit now u
      · rw [heq]
        exact ⟨hlow _ rfl, Nat.le_add_right_of_le h, Nat.add_le_add_right h limit⟩
      · rw [heq]
        exact ⟨hlow _ rfl, .close (Nat.le_add_right_of_le h) _ _⟩
      · rw [heq]
        exact ⟨hlow _ rfl, Nat.le_add_right_of_le h⟩

theorem queue_take (m : Relay) (limit now : Nat) (u : Update) : (m.take limit now u).1.queue = m.queue := by
  obtain ⟨d, -, heq⟩ | ⟨-, heq | ⟨-, heq⟩⟩ := take_cases m limit now u <;> rw [heq] <;> rfl

theorem next_cases (hidle : m.activity = .idle) (limit now : Nat) (asked : Bool) :
    m.next limit now asked = m.close limit now .completed ∨ m.next limit now asked = (m, none) ∨
      ∃ u rest, m.queue = u :: rest ∧ m.next limit now asked = take ⟨rest, m.aggregate, .idle⟩ limit now u := by
  unfold next
  rw [hidle]
  cases asked with
  | true => exact Or.inl rfl
  | false =>
    cases hq : m.queue with
    | nil => cases m.exhausted <;> simp
    | cons u rest => exact Or.inr (Or.inr ⟨u, rest, rfl, rfl⟩)

theorem resolve_cases (m : Relay) (limit now : Nat) (r : Result) :
    (∃ deadline, m.activity = .calling deadline) ∧ ((∃ outcome, m.resolve limit now r = m.close limit now outcome) ∨
      m.resolve limit now r = ({ m with activity := .idle }, none)) ∨
    (∃ outcome, m.resolve limit now r = ({ m with activity := .ended outcome }, none)) ∨
    m.resolve limit now r = (m, none) := by
  unfold resolve
  cases ha : m.activity with
  | idle | ended => exact Or.inr (Or.inr rfl)
  | closing => cases r <;> exact Or.inr (Or.inl ⟨_, rfl⟩)
  | calling deadline =>
    refine Or.inl ⟨⟨deadline, rfl⟩, ?_⟩
    cases r with
    | panicked => exact Or.inl ⟨_, rfl⟩
    | answered r =>
      cases r with
      | error e => exact Or.inl ⟨_, rfl⟩
      | ok => cases m.exhausted <;> simp

/-- Between calls a run that may leave does so, or it takes the end of a probe. -/
theorem next_within (hidle : m.activity = .idle) (hends : ∀ u ∈ m.queue, u.status = none) (h : now ≤ bound)
    (asked : Bool) :
    (m.next limit now asked).1.Within limit bound now ∧ (m.next limit now asked).1.lowered = m.lowered ∨
      m.aggregate ≠ none ∧ m.lowered = false ∧ (m.next limit now asked).1.lowered = true ∧
        (m.next limit now asked).1.Within limit (bound + limit) now ∧
        (m.next limit now asked).1.queue.length < m.queue.length := by
  obtain heq | heq | ⟨u, rest, hq, heq⟩ := next_cases hidle limit now asked
  · rw [heq]
    exact Or.inl ⟨.close h m _, rfl⟩
  · rw [heq]
    exact Or.inl ⟨by rwa [Within, hidle], rfl⟩
  · rw [heq, queue_take, hq]
    obtain hsame | ⟨hseveral, hup, hdown, hwithin⟩ :=
      take_end (m := ⟨rest, m.aggregate, .idle⟩) rfl (hends u (by simp [hq])) h
    · exact Or.inl hsame
    · exact Or.inr ⟨hseveral, hup, hdown, hwithin, Nat.lt_succ_self _⟩

theorem Within.resolve (h : m.Within limit bound now) (r : Result) :
    (m.resolve limit now r).1.Within limit bound now ∧ (m.resolve limit now r).1.lowered = m.lowered := by
  obtain ⟨⟨deadline, ha⟩, ⟨outcome, heq⟩ | heq⟩ | ⟨outcome, heq⟩ | heq := m.resolve_cases limit now r
  all_goals rw [heq]
  · rw [Within, ha] at h
    exact ⟨.close h.1 m outcome, rfl⟩
  · rw [Within, ha] at h
    exact ⟨h.1, rfl⟩
  · exact ⟨trivial, rfl⟩
  · exact ⟨h, rfl⟩

/-- Every call that a step makes has the full time. -/
theorem deadline?_next {deadline : Nat} (hidle : m.activity = .idle) (limit now : Nat) (asked : Bool)
    (h : (m.next limit now asked).1.deadline? = some deadline) : deadline = now + limit := by
  have hnone : ∀ m' : Relay, m'.activity = .idle → m'.deadline? = some deadline → deadline = now + limit :=
    fun m' ha hd => by simp [deadline?, ha] at hd
  obtain heq | heq | ⟨u, rest, -, heq⟩ := next_cases hidle limit now asked
  · rw [heq] at h
    exact (Option.some.inj h).symm
  · rw [heq] at h
    exact hnone m hidle h
  · rw [heq] at h
    obtain ⟨d, -, heq'⟩ | ⟨-, heq' | ⟨-, heq'⟩⟩ := take_cases ⟨rest, m.aggregate, .idle⟩ limit now u
    · rw [heq'] at h
      exact (Option.some.inj h).symm
    · rw [heq'] at h
      exact (Option.some.inj h).symm
    · rw [heq'] at h
      exact hnone _ rfl h

theorem deadline?_resolve {deadline : Nat} (limit now : Nat) (r : Result)
    (h : (m.resolve limit now r).1.deadline? = some deadline) :
    deadline = now + limit ∨ m.deadline? = some deadline := by
  obtain ⟨-, ⟨outcome, heq⟩ | heq⟩ | ⟨outcome, heq⟩ | heq := m.resolve_cases limit now r
  all_goals rw [heq] at h
  · exact Or.inl (Option.some.inj h).symm
  · cases h
  · cases h
  · exact Or.inr h

end Relay

namespace Supervisor

theorem afterRun_of_shutdown {v : Supervisor} (h : v.shutdown = true) (now : Nat) (e : RunEnd) :
    ∃ x, v.afterRun now e = .exited x := by
  unfold afterRun
  split
  · exact ⟨_, rfl⟩
  · exact ⟨_, rfl⟩
  · exact ⟨.shutdown, if_pos h⟩

theorem requestShutdown_frame (v : Supervisor) :
    v.requestShutdown.shutdown = true ∧ v.requestShutdown.starts = v.starts ∧
      ∀ resume, v.requestShutdown.phase ≠ .waiting resume := by
  obtain ⟨name, strategy, phase, restarts, shutdown, starts⟩ := v
  cases phase <;> exact ⟨rfl, rfl, nofun⟩

/-- A request is made once. -/
theorem requestShutdown_of_asked {v : Supervisor} (h : v.shutdown = true)
    (hthrough : ∀ resume, v.phase ≠ .waiting resume) : v.requestShutdown = v := by
  obtain ⟨name, strategy, phase, restarts, shutdown, starts⟩ := v
  obtain rfl : shutdown = true := h
  cases phase with
  | waiting resume => exact absurd rfl (hthrough resume)
  | running | exited => rfl

end Supervisor

namespace Sync
variable {s : Sync} {bound now later : Nat}

theorem limit_follow (s : Sync) (now : Nat) (step : Relay × Option Decision) :
    (s.follow now step).limit = s.limit := by
  unfold follow
  simp only
  split <;> rfl

theorem due_le_deadline (hr : s.running = true) {deadline : Nat} (h : s.run.deadline? = some deadline) :
    ∃ d, s.due = some d ∧ d ≤ deadline := by
  have hphase : s.supervisor.phase = .running := by simpa [running] using hr
  have hready : s.run.ready s.supervisor.shutdown = false := by
    cases hready : s.run.ready s.supervisor.shutdown with
    | false => rfl
    | true => simp [Relay.deadline?, Relay.idle_of_ready hready] at h
  rw [due, hphase]
  simp only [hready, Bool.false_eq_true, if_false]
  cases ha : s.answerTime? with
  | none => exact ⟨deadline, h, Nat.le_refl _⟩
  | some d =>
    refine ⟨d, rfl, ?_⟩
    unfold answerTime? at ha
    split at ha
    · cases ha
    · next hd _ _ =>
      obtain rfl := Option.some.inj (h.symm.trans hd)
      split at ha
      · next hle => exact Option.some.inj ha ▸ hle
      · cases ha
    · cases ha

/-- A run that was asked to stop is due at once between calls, and by the deadline of a call. -/
theorem due_asked (hr : s.running = true) (hasked : s.supervisor.shutdown = true)
    (hgoes : ∀ outcome, s.run.activity ≠ .ended outcome) : ∃ d, s.due = some d ∧ d ≤ s.run.deadline?.getD 0 := by
  cases ha : s.run.activity with
  | idle =>
    have hphase : s.supervisor.phase = .running := by simpa [running] using hr
    exact ⟨0, by simp [due, hphase, Relay.ready, ha, hasked], Nat.zero_le _⟩
  | calling deadline | closing _ deadline =>
    have hdeadline : s.run.deadline? = some deadline := by rw [Relay.deadline?, ha]
    rw [hdeadline]
    exact due_le_deadline hr hdeadline
  | ended outcome => exact absurd ha (hgoes outcome)

/-- What is within bounds stays so while time does not pass what is due. -/
theorem within_pass (h : s.run.Within s.limit.timer bound now) (hr : s.running = true)
    (hasked : s.supervisor.shutdown = true) (hle : now ≤ later) (hdue : ∀ d, s.due = some d → later ≤ max d now) :
    s.run.Within s.limit.timer bound later := by
  unfold Relay.Within at *
  cases ha : s.run.activity with
  | ended => trivial
  | idle | calling | closing =>
    obtain ⟨d, hd, hby⟩ := due_asked hr hasked (by simp [ha])
    have hlater := hdue d hd
    simp only [Relay.deadline?, ha, Option.getD] at h hby ⊢
    omega

/-- A run that was asked to stop has something to do until its time is up. -/
theorem not_settled (h : s.run.Within s.limit.timer bound now) (hr : s.running = true)
    (hasked : s.supervisor.shutdown = true) (hgoes : ∀ outcome, s.run.activity ≠ .ended outcome)
    (hlate : bound + s.limit.timer ≤ now) : ∃ d, s.due = some d ∧ d ≤ now := by
  obtain ⟨d, hd, hby⟩ := due_asked hr hasked hgoes
  refine ⟨d, hd, ?_⟩
  unfold Relay.Within at h
  cases ha : s.run.activity with
  | ended outcome => exact absurd ha (hgoes outcome)
  | idle | calling | closing =>
    simp only [Relay.deadline?, ha, Option.getD] at h hby
    omega

/-- What a component that was asked to leave at `t` has become by now: it starts no run, and its run is over one call
and the last one after `t`, or two and the last one if it took news of several probes in the meantime. -/
structure Leaving (t : Nat) (s₀ s : Sync) (now taken : Nat) : Prop where
  limit : s.limit = s₀.limit
  aggregated : s.aggregated = s₀.aggregated
  starts : s.supervisor.starts = s₀.supervisor.starts
  asked : s.supervisor.shutdown = true
  through : ∀ resume, s.supervisor.phase ≠ .waiting resume
  ends : ∀ u ∈ s.run.queue, u.status = none
  within : s.running = true → s.run.Within s.limit.timer (t + s.limit.timer) now ∨
    taken ≠ 0 ∧ s.aggregated = true ∧ s.run.lowered = true ∧
      s.run.Within s.limit.timer (t + 2 * s.limit.timer) now

variable {t taken : Nat} {s₀ : Sync}

theorem Leaving.start (hends : ∀ u ∈ s.run.queue, u.status = none)
    (hdeadline : ∀ d, s.run.deadline? = some d → d ≤ t + s.limit.timer) : Leaving t s s.requestShutdown t 0 := by
  obtain ⟨hasked, hstarts, hthrough⟩ := s.supervisor.requestShutdown_frame
  refine ⟨rfl, rfl, hstarts, hasked, hthrough, hends, fun _ => Or.inl ?_⟩
  show s.run.Within s.limit.timer (t + s.limit.timer) t
  unfold Relay.Within
  cases ha : s.run.activity with
  | idle => exact Nat.le_add_right _ _
  | calling d => exact ⟨Nat.le_add_right _ _, hdeadline d (by rw [Relay.deadline?, ha])⟩
  | closing _ d =>
    have hd := hdeadline d (by rw [Relay.deadline?, ha])
    exact ⟨by omega, by omega⟩
  | ended => trivial

theorem Leaving.pass (h : Leaving t s₀ s now taken) (hle : now ≤ later)
    (hdue : ∀ d, s.due = some d → later ≤ max d now) : Leaving t s₀ s later taken :=
  { h with
    within := fun hr => (h.within hr).imp (fun hw => within_pass hw hr h.asked hle hdue)
      fun ⟨hne, hseveral, hlow, hw⟩ => ⟨hne, hseveral, hlow, within_pass hw hr h.asked hle hdue⟩ }

theorem Leaving.follow (h : Leaving t s₀ s now taken) (hr : s.running = true) {step : Relay × Option Decision}
    (hends : ∀ u ∈ step.1.queue, u.status = none) {more : Nat}
    (hwithin : step.1.Within s.limit.timer (t + s.limit.timer) now ∨
      taken + more ≠ 0 ∧ s.aggregated = true ∧ step.1.lowered = true ∧
        step.1.Within s.limit.timer (t + 2 * s.limit.timer) now) :
    Leaving t s₀ (s.follow now step) now (taken + more) := by
  have hphase : s.supervisor.phase = .running := by simpa [running] using hr
  have hlimit := s.limit_follow now step
  have haggregated := (s.follow_frame now step).2
  have hsupervisor : (s.follow now step).supervisor.shutdown = true ∧
      ∀ resume, (s.follow now step).supervisor.phase ≠ .waiting resume := by
    obtain ⟨hsame, -⟩ | ⟨outcome, -, hended⟩ := s.supervisor_follow now step
    · rw [hsame]
      exact ⟨h.asked, h.through⟩
    · obtain ⟨x, hx⟩ := Supervisor.afterRun_of_shutdown h.asked now (runEnd s.signal outcome)
      rw [hended, Supervisor.ended, hphase]
      exact ⟨h.asked, fun resume => by simp [hx]⟩
  refine ⟨hlimit.trans h.limit, haggregated.trans h.aggregated, (s.starts_follow now step).trans h.starts,
    hsupervisor.1, hsupervisor.2, ?_, fun _ => ?_⟩
  · rw [run_follow]
    exact hends
  · rw [run_follow, hlimit, haggregated]
    exact hwithin

theorem Leaving.next (h : Leaving t s₀ s now taken) {transcript : Transcript} {past : List Transcript}
    (ha : s.Accounts transcript past) (hr : s.running = true) (hidle : s.run.activity = .idle) (asked : Bool)
    (hends : ∀ u ∈ (s.run.next s.limit.timer now asked).1.queue, u.status = none) :
    Leaving t s₀ (s.follow now (s.run.next s.limit.timer now asked)) now
      (taken + (s.run.queue.length - (s.run.next s.limit.timer now asked).1.queue.length)) := by
  refine h.follow hr hends ?_
  obtain hw | ⟨hne, hseveral, hlow, hw⟩ := h.within hr
  · rw [Relay.Within, hidle] at hw
    obtain ⟨hw', -⟩ | ⟨hknown, -, hlow, hw', hlt⟩ := Relay.next_within hidle h.ends hw asked
    · exact Or.inl hw'
    · refine Or.inr ⟨by omega, ?_, hlow, hw'.mono (by omega)⟩
      obtain ⟨-, news, htracks⟩ := ha.run.of_idle hidle
      cases hone : s.aggregated with
      | true => rfl
      | false =>
        refine absurd ?_ hknown
        rw [htracks.aggregate, blank, hone]
        exact congrArg Prod.fst (Relay.mirror_none news)
  · rw [Relay.Within, hidle] at hw
    obtain ⟨hw', hsame⟩ | ⟨-, hup, -⟩ := Relay.next_within hidle h.ends hw asked
    · exact Or.inr ⟨by omega, hseveral, hsame.trans hlow, hw'⟩
    · exact absurd (hlow.symm.trans hup) Bool.true_eq_false.mp

theorem Leaving.resolve (h : Leaving t s₀ s now taken) (hr : s.running = true) (r : Relay.Result)
    (hends : ∀ u ∈ (s.run.resolve s.limit.timer now r).1.queue, u.status = none) (more : Nat) :
    Leaving t s₀ (s.follow now (s.run.resolve s.limit.timer now r)) now (taken + more) := by
  refine h.follow hr hends ((h.within hr).imp (fun hw => (hw.resolve r).1) ?_)
  rintro ⟨hne, hseveral, hlow, hw⟩
  exact ⟨by omega, hseveral, (hw.resolve r).2.trans hlow, (hw.resolve r).1⟩

end Sync

namespace Carrier
variable {now : Nat} {s s' : Assembly} {c c' : Carrier} {e e' : Episode} {older older' : List Episode}

theorem Step.frame (h : Step now s c e older s' c' e' older') :
    c'.sync.limit = c.sync.limit ∧ c'.sync.aggregated = c.sync.aggregated := by
  cases h with
  | attach | release | shutdown | restart => exact ⟨rfl, rfl⟩
  | miss | forward | finish =>
    unfold Sync.deliver
    split <;> exact ⟨rfl, rfl⟩
  | proceed => exact ⟨Sync.limit_follow .., (Sync.follow_frame ..).2⟩
  | @resolve _ sync w r _ _ _ _ houtcome =>
    obtain ⟨transport, rfl⟩ := Sync.outcome_frame houtcome
    exact ⟨Sync.limit_follow .., (Sync.follow_frame ..).2⟩

/-- No step gives a call more than its time. -/
theorem Step.deadline (h : Step now s c e older s' c' e' older')
    (ha : c.sync.Accounts e.transcript (older.map (·.transcript))) {deadline : Nat}
    (hd : c'.sync.run.deadline? = some deadline) :
    deadline = now + c.sync.limit.timer ∨ c.sync.run.deadline? = some deadline := by
  cases h with
  | attach | release | shutdown => exact Or.inr hd
  | miss _ hl | forward _ hl | finish _ hl =>
    rw [Sync.deliver_of_listening (ha.running_of_listening hl) hl] at hd
    exact Or.inr hd
  | proceed asked _ _ hready =>
    rw [Sync.run_follow] at hd
    exact Or.inl (Relay.deadline?_next (Relay.idle_of_ready hready) _ _ _ hd)
  | @resolve _ sync w r _ _ _ _ houtcome =>
    obtain ⟨transport, rfl⟩ := Sync.outcome_frame houtcome
    rw [Sync.run_follow] at hd
    exact Relay.deadline?_resolve _ _ r hd
  | restart => cases hd

variable {t taken : Nat} {s₀ : Sync}

theorem Step.leaving (hstep : Step now s c e older s' c' e' older') (h : Sync.Leaving t s₀ c.sync now taken)
    (ha : c.sync.Accounts e.transcript (older.map (·.transcript)))
    (hquiet : ∀ u ∈ c'.sync.run.queue, u ∈ c.sync.run.queue ∨ u.status = none) :
    Sync.Leaving t s₀ c'.sync now (taken + (c.sync.run.queue.length - c'.sync.run.queue.length)) := by
  have hends : ∀ u ∈ c'.sync.run.queue, u.status = none := fun u hu => (hquiet u hu).elim (h.ends u) id
  cases hstep with
  | attach | release => rwa [Nat.sub_self]
  | shutdown =>
    rw [Sync.requestShutdown, Supervisor.requestShutdown_of_asked h.asked h.through, Nat.sub_self]
    exact h
  | miss _ hl | forward _ hl | finish _ hl =>
    rw [Sync.deliver_of_listening (ha.running_of_listening hl) hl] at hends ⊢
    rw [Nat.sub_eq_zero_of_le (by simp)]
    exact { h with ends := hends }
  | proceed asked hr _ hready =>
    rw [Sync.run_follow] at hends ⊢
    exact h.next ha hr (Relay.idle_of_ready hready) asked hends
  | @resolve _ sync w r hr _ _ _ houtcome =>
    obtain ⟨transport, rfl⟩ := Sync.outcome_frame houtcome
    rw [Sync.run_follow] at hends
    have hleaving : Sync.Leaving t s₀ { c.sync with transport := transport } now taken := { h with }
    exact hleaving.resolve hr r hends _
  | restart hphase => exact absurd hphase (h.through _)

end Carrier

namespace Assembly
open Carrier

variable {now i t taken : Nat} {s : Assembly} {logs : Nat → List Episode} {c₀ : Carrier}

theorem Unfolds.deadline_le (h : Unfolds now s logs) :
    ∀ (i : Nat) (c : Carrier), s.carriers[i]? = some c → ∀ d, c.sync.run.deadline? = some d →
      d ≤ now + c.sync.limit.timer := by
  induction h with
  | new hcarriers => simp [hcarriers]
  | pass _ hle ih => exact fun i c hc d hd => Nat.le_trans (ih i c hc d hd) (Nat.add_le_add_right hle _)
  | stir _ hs ih =>
    intro i c hc
    exact ih i c (hs.evolves.1 ▸ hc)
  | add _ _ _ _ _ _ _ _ _ _ ih =>
    intro i c hc d hd
    obtain ⟨hc, -⟩ | ⟨-, rfl⟩ := carriers_join hc
    · exact ih i c hc d hd
    · cases hd
  | @step now i s s' logs c c' e e' older older' h hc hlog hstep ih =>
    obtain ⟨e₀, older₀, hlog₀, hk⟩ := h.sound.keeps i c hc
    obtain ⟨rfl, rfl⟩ := List.cons.inj (hlog.symm.trans hlog₀)
    intro j d hd deadline hdeadline
    obtain ⟨rfl, rfl⟩ | ⟨-, hold⟩ := carriers_set hc hd
    · rw [hstep.frame.1]
      obtain rfl | hold := hstep.deadline hk.accounts hdeadline
      · exact Nat.le_refl _
      · exact ih j c hc deadline hold
    · exact ih j d hold deadline hdeadline

/-- What may have come of component `c₀` by some time since it was asked to shut down at `t`, whatever happens around
it, when no status is queued for it or reaches it later. Time does not pass what it is about to do. The last number
counts the news that it has taken since. -/
inductive Aftermath (i t : Nat) (c₀ : Carrier) : Nat → Assembly → (Nat → List Episode) → Nat → Prop
  | asked {s : Assembly} {logs : Nat → List Episode} : Unfolds t s logs → s.carriers[i]? = some c₀ →
    (∀ u ∈ c₀.sync.run.queue, u.status = none) →
    Aftermath i t c₀ t { s with carriers := s.carriers.set i ⟨c₀.sync.requestShutdown, c₀.subscriptions⟩ } logs 0
  | pass {now later taken : Nat} {s : Assembly} {logs : Nat → List Episode} {c : Carrier} :
    Aftermath i t c₀ now s logs taken → s.carriers[i]? = some c → now ≤ later →
    (∀ d, c.sync.due = some d → later ≤ max d now) → Aftermath i t c₀ later s logs taken
  | around {now taken : Nat} {s s' : Assembly} {logs logs' : Nat → List Episode} :
    Aftermath i t c₀ now s logs taken → Unfolds now s' logs' → s'.carriers[i]? = s.carriers[i]? →
    logs' i = logs i → Aftermath i t c₀ now s' logs' taken
  | step {now taken : Nat} {s s' : Assembly} {logs : Nat → List Episode} {c c' : Carrier} {e e' : Episode}
    {older older' : List Episode} : Aftermath i t c₀ now s logs taken → s.carriers[i]? = some c →
    logs i = e :: older → Step now s c e older s' c' e' older' →
    (∀ u ∈ c'.sync.run.queue, u ∈ c.sync.run.queue ∨ u.status = none) →
    Aftermath i t c₀ now { s' with carriers := s.carriers.set i c' } (Function.update logs i (e' :: older'))
      (taken + (c.sync.run.queue.length - c'.sync.run.queue.length))

/-- Time passes up to what the component is about to do. -/
theorem Aftermath.wait {later d : Nat} {c : Carrier} (h : Aftermath i t c₀ now s logs taken)
    (hc : s.carriers[i]? = some c) (hd : c.sync.due = some d) (hle : now ≤ later) (hby : later ≤ d) :
    Aftermath i t c₀ later s logs taken := by
  refine h.pass hc hle fun d' hd' => ?_
  obtain rfl := Option.some.inj (hd.symm.trans hd')
  exact Nat.le_trans hby (Nat.le_max_left d now)

theorem Aftermath.unfolds (h : Aftermath i t c₀ now s logs taken) : Unfolds now s logs := by
  induction h with
  | asked h hc _ =>
    obtain ⟨e, older, hlog, -⟩ := h.sound.keeps i c₀ hc
    have hasked := h.step hc hlog .shutdown
    rwa [← hlog, Function.update_eq_self] at hasked
  | pass _ _ hle _ ih => exact ih.pass hle
  | around _ h => exact h
  | step _ hc hlog hstep _ ih => exact ih.step hc hlog hstep

theorem Aftermath.leaving (h : Aftermath i t c₀ now s logs taken) :
    ∃ c, s.carriers[i]? = some c ∧ Sync.Leaving t c₀.sync c.sync now taken := by
  induction h with
  | asked h hc hquiet =>
    exact ⟨_, List.getElem?_set_self (List.getElem?_eq_some_iff.mp hc).1,
      .start hquiet (h.deadline_le i c₀ hc)⟩
  | pass _ hc hle hdue ih =>
    obtain ⟨c', hc', hleaving⟩ := ih
    obtain rfl := Option.some.inj (hc.symm.trans hc')
    exact ⟨_, hc, hleaving.pass hle hdue⟩
  | around _ _ hsame _ ih =>
    obtain ⟨c, hc, hleaving⟩ := ih
    exact ⟨c, hsame.trans hc, hleaving⟩
  | @step now taken s s' logs c c' e e' older older' h hc hlog hstep hquiet ih =>
    obtain ⟨c₁, hc₁, hleaving⟩ := ih
    obtain rfl := Option.some.inj (hc.symm.trans hc₁)
    obtain ⟨e₁, older₁, hlog₁, hk⟩ := h.unfolds.sound.keeps i c hc
    obtain ⟨rfl, rfl⟩ := List.cons.inj (hlog.symm.trans hlog₁)
    exact ⟨c', List.getElem?_set_self (List.getElem?_eq_some_iff.mp hc).1,
      hstep.leaving hleaving hk.accounts hquiet⟩

end Assembly
end HealthSignal
