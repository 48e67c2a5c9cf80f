import HealthSignal.Proofs.Sync.Transcript
import HealthSignal.Sync.Basic

/-! All calls of a component are those of its runs, one run after the other. -/
namespace HealthSignal

namespace Transcript
variable {t : Transcript}

theorem decisions_call (h : t.pending = none) (d : Option Decision) :
    (t.call d).decisions = t.decisions ++ d.toList := by
  simp [decisions, call, h]

theorem decisions_answer (t : Transcript) (r : Relay.Result) : (t.answer r).decisions = t.decisions := by
  obtain ⟨heard, done, pending⟩ := t
  cases pending <;> simp [decisions, answer]

end Transcript

namespace Relay
variable {a₀ : Option Aggregate} {t : Transcript} {m : Relay}

theorem Keeps.of_idle (h : Keeps a₀ t m) (hi : m.activity = .idle) :
    t.pending = none ∧ ∃ taken, Tracks a₀ t m taken := by
  cases h with
  | idle taken _ hp ht => exact ⟨hp, taken, ht⟩
  | calling _ ha | closing ha | ended ha => simp [hi] at ha

theorem Keeps.complete (h : Keeps a₀ t m) {outcome : RelayEnd} (he : m.activity = .ended outcome) :
    Complete a₀ t := by
  cases h with
  | ended _ hc => exact hc
  | idle _ ha | calling _ ha | closing ha => simp [he] at ha

theorem idle_of_ready {shutdown : Bool} (h : m.ready shutdown = true) : m.activity = .idle := by
  simp only [ready, Bool.and_eq_true, beq_iff_eq] at h
  exact h.1

end Relay

namespace Sync
variable {s : Sync} {t : Transcript} {past : List Transcript}

def blank (s : Sync) : Option Aggregate := if s.aggregated then some (.new s.keys) else none

theorem run_follow (s : Sync) (now : Nat) (step : Relay × Option Decision) :
    (s.follow now step).run = step.1 := by
  unfold follow
  simp only
  split <;> rfl

theorem calls_follow (s : Sync) (now : Nat) (step : Relay × Option Decision) :
    (s.follow now step).calls = step.2.toList.map (now, ·) ++ s.calls := by
  obtain ⟨m, d⟩ := step
  unfold follow
  cases d <;> (simp only; split <;> rfl)

theorem follow_frame (s : Sync) (now : Nat) (step : Relay × Option Decision) :
    (s.follow now step).keys = s.keys ∧ (s.follow now step).aggregated = s.aggregated := by
  unfold follow
  simp only
  split <;> exact ⟨rfl, rfl⟩

theorem starts_follow (s : Sync) (now : Nat) (step : Relay × Option Decision) :
    (s.follow now step).supervisor.starts = s.supervisor.starts := by
  unfold follow
  simp only
  split
  · unfold Supervisor.ended
    split <;> rfl
  · rfl

theorem running_follow (h : s.running = true) (now : Nat) (step : Relay × Option Decision) :
    (s.follow now step).running = true ↔ ∀ outcome, step.1.activity ≠ .ended outcome := by
  have hphase : s.supervisor.phase = .running := by simpa [running] using h
  obtain ⟨m, d⟩ := step
  unfold follow
  simp only
  cases ha : m.activity with
  | ended outcome =>
    have hafter : ∀ e, s.supervisor.afterRun now e ≠ .running := by
      intro e
      unfold Supervisor.afterRun
      split
      · simp
      · simp
      · split <;> simp
    simp [running, Supervisor.ended, hphase, hafter]
  | idle | calling | closing => exact iff_of_true h fun outcome => by simp

theorem outcome_frame {s' : Sync} {w w' : Surroundings} {r : Relay.Result} (h : s.outcome w = (s', w', r)) :
    ∃ transport, s' = { s with transport := transport } := by
  obtain rfl : (s.outcome w).1 = s' := congrArg Prod.fst h
  unfold outcome
  split
  · split
    · exact ⟨_, rfl⟩
    · exact ⟨_, rfl⟩
    · exact ⟨_, rfl⟩
  · exact ⟨_, rfl⟩

theorem supervisor_deliver (s : Sync) (u : Update) : (s.deliver u).supervisor = s.supervisor := by
  unfold deliver
  split <;> rfl

/-- The calls are those of the runs, of which `t` is the latest and all in `past` are over. -/
structure Accounts (s : Sync) (t : Transcript) (past : List Transcript) : Prop where
  calls : s.calls.map (·.2) = (t :: past).flatMap (·.decisions.reverse)
  starts : s.supervisor.starts.length = past.length + 1
  running : s.running = true ↔ ∀ outcome, s.run.activity ≠ .ended outcome
  run : Relay.Keeps s.blank t s.run
  past : ∀ t ∈ past, Relay.Complete s.blank t

theorem Accounts.start (signal : Signal) (keys : List String) (aggregated : Bool) (limit : Duration)
    (transport : Transport) (strategy : Strategy) (shutdown : Bool) (dead : List String) (now : Nat) :
    (start signal keys aggregated limit transport strategy shutdown dead now).Accounts
      ⟨dead.map (⟨·, none⟩), [], none⟩ [] where
  calls := rfl
  starts := rfl
  running := iff_of_true rfl fun outcome => by simp [Sync.start, freshRun, Relay.start]
  run := .start ..
  past := by simp

theorem Accounts.running_of_listening (h : s.Accounts t past) (hl : s.run.listening = true) :
    s.running = true := by
  rw [h.running]
  intro outcome ha
  simp [Relay.listening, ha] at hl

theorem Accounts.complete (h : s.Accounts t past) (hr : s.running = false) : Relay.Complete s.blank t := by
  by_contra hnot
  have hrun : s.running = true := h.running.mpr fun outcome ha => hnot (h.run.complete ha)
  simp [hr] at hrun

theorem deliver_of_listening (hr : s.running = true) (hl : s.run.listening = true) (u : Update) :
    s.deliver u = { s with run := { s.run with queue := s.run.queue ++ [u] } } :=
  if_pos (by simp [hr, hl])

theorem Accounts.deliver (h : s.Accounts t past) (hl : s.run.listening = true) (u : Update) :
    (s.deliver u).Accounts (t.hear u) past := by
  rw [deliver_of_listening (h.running_of_listening hl) hl]
  exact ⟨h.calls, h.starts, h.running, h.run.hear hl u, h.past⟩

theorem Accounts.withTransport (h : s.Accounts t past) (transport : Transport) :
    { s with transport := transport }.Accounts t past :=
  ⟨h.calls, h.starts, h.running, h.run, h.past⟩

theorem Accounts.requestShutdown (h : s.Accounts t past) : s.requestShutdown.Accounts t past := by
  have hstarts : s.requestShutdown.supervisor.starts = s.supervisor.starts := by
    unfold Sync.requestShutdown Supervisor.requestShutdown
    simp only
    split <;> rfl
  have hrunning : s.requestShutdown.running = s.running := by
    unfold Sync.requestShutdown Supervisor.requestShutdown Sync.running
    simp only
    cases s.supervisor.phase <;> rfl
  exact ⟨h.calls, hstarts ▸ h.starts, hrunning ▸ h.running, h.run, h.past⟩

theorem Accounts.follow (h : s.Accounts t past) (hr : s.running = true) {t' : Transcript}
    {step : Relay × Option Decision} (hd : t'.decisions = t.decisions ++ step.2.toList)
    (hk : Relay.Keeps s.blank t' step.1) (now : Nat) : (s.follow now step).Accounts t' past := by
  obtain ⟨hkeys, haggregated⟩ := s.follow_frame now step
  have hblank : (s.follow now step).blank = s.blank := by rw [blank, blank, hkeys, haggregated]
  refine ⟨?_, ?_, ?_, ?_, ?_⟩
  · have hcalls := h.calls
    rw [List.flatMap_cons] at hcalls ⊢
    rw [calls_follow, List.map_append, hcalls, hd]
    cases step.2 <;> simp
  · rw [starts_follow, h.starts]
  · rw [running_follow hr, run_follow]
  · rwa [hblank, run_follow]
  · rw [hblank]
    exact h.past

theorem Accounts.proceed (h : s.Accounts t past) (hr : s.running = true) {shutdown : Bool}
    (hready : s.run.ready shutdown = true) (now : Nat) :
    (s.follow now (s.run.next s.limit.timer now shutdown)).Accounts
      (t.call (s.run.next s.limit.timer now shutdown).2) past :=
  h.follow hr (Transcript.decisions_call (h.run.of_idle (Relay.idle_of_ready hready)).1 _)
    (h.run.next hready ..) now

theorem Accounts.resolve (h : s.Accounts t past) (hr : s.running = true)
    (hd : s.run.deadline?.isSome = true) (now : Nat) (r : Relay.Result) :
    (s.follow now (s.run.resolve s.limit.timer now r)).Accounts
      ((t.answer r).call (s.run.resolve s.limit.timer now r).2) past := by
  refine h.follow hr ?_ (h.run.resolve hd ..) now
  rw [Transcript.decisions_call rfl, Transcript.decisions_answer]

theorem Accounts.restart (h : s.Accounts t past) {resume : Nat}
    (hp : s.supervisor.phase = .waiting resume) (dead : List String) (now : Nat) :
    { s with supervisor := s.supervisor.resume now, run := freshRun s.keys s.aggregated dead }.Accounts
      ⟨dead.map (⟨·, none⟩), [], none⟩ (t :: past) := by
  have hr : s.running = false := by simp [Sync.running, hp]
  have hsupervisor : s.supervisor.resume now = { s.supervisor with
      phase := .running, restarts := s.supervisor.restarts + 1, starts := now :: s.supervisor.starts } := by
    rw [Supervisor.resume, hp]
  refine ⟨?_, ?_, ?_, .start .., ?_⟩
  · rw [List.flatMap_cons]
    exact h.calls
  · simp [hsupervisor, h.starts]
  · exact iff_of_true (by simp [Sync.running, hsupervisor]) fun outcome => by simp [freshRun, Relay.start]
  · exact List.forall_mem_cons.mpr ⟨h.complete hr, h.past⟩

/-- When no run is in progress, the last call lowered the signal for good. -/
theorem Accounts.farewell (h : s.Accounts t past) (hr : s.running = false) :
    s.calls.head?.map (·.2) = some Relay.farewell := by
  obtain ⟨hp, made, r, hd, -⟩ := h.complete hr
  rw [← List.head?_map, h.calls, List.flatMap_cons]
  simp [Transcript.decisions, hp, hd]

end Sync
end HealthSignal
