import HealthSignal.Proofs.Sync.Account

/-! What a run comes to. Its mirroring decides, by its last call or because there is nothing left to follow;
the call that lowers the signal matters only if it panics. -/
namespace HealthSignal

namespace RelayEnd

def ofCalls (calls : List (Decision × Relay.Result)) : RelayEnd :=
  match calls.getLast? with
  | some (_, .answered (.error cause)) => .failed cause
  | some (_, .panicked) => .panicked
  | some (_, .answered (.ok ())) | none => .completed

def after (outcome : RelayEnd) : Relay.Result → RelayEnd
  | .answered _ => outcome
  | .panicked => .panicked

theorem ofCalls_of_succeeded {calls : List (Decision × Relay.Result)} (h : ∀ x ∈ calls, Succeeded x) :
    ofCalls calls = .completed := by
  unfold ofCalls
  cases hl : calls.getLast? with
  | none => rfl
  | some x =>
    obtain ⟨d, r⟩ := x
    obtain rfl : r = .answered (.ok ()) := h _ (List.mem_of_getLast? hl)
    rfl

end RelayEnd

namespace Relay
open RelayEnd (ofCalls)

variable {a₀ : Option Aggregate} {t : Transcript} {m : Relay} {limit now : Nat} {asked : Bool}

/-- The news say that there is nothing left to follow: the only probe has ended, or all of several have. -/
def Exhausts (a₀ : Option Aggregate) (heard : List Update) : Prop :=
  ∃ taken, taken <+: heard ∧
    ((mirror a₀ taken).1 = none ∧ (∃ u ∈ taken, u.status = none) ∨
      (mirror a₀ taken).1.any (·.allTerminated) = true)

/-- A run ends as its mirroring did, which goes on until a call fails, it is `asked` to stop, or nothing is left to
follow. -/
structure Ends (a₀ : Option Aggregate) (asked : Bool) (t : Transcript) (m : Relay) : Prop where
  closing : ∀ outcome deadline, m.activity = .closing outcome deadline →
    outcome = ofCalls t.done ∧ (outcome = .completed → asked = true ∨ Exhausts a₀ t.heard)
  ended : ∀ outcome, m.activity = .ended outcome → ∃ calls r, t.done = calls ++ [(farewell, r)] ∧
    SucceededBeforeLast calls ∧ outcome = (ofCalls calls).after r ∧
    (ofCalls calls = .completed → asked = true ∨ Exhausts a₀ t.heard)

theorem Ends.of_listening (h : m.listening = true) : Ends a₀ asked t m where
  closing outcome deadline ha := by simp [listening, ha] at h
  ended outcome ha := by simp [listening, ha] at h

theorem Ends.close (m : Relay) (limit now : Nat) {outcome : RelayEnd} (houtcome : outcome = ofCalls t.done)
    (hwhy : outcome = .completed → asked = true ∨ Exhausts a₀ t.heard) :
    Ends a₀ asked (t.call (m.close limit now outcome).2) (m.close limit now outcome).1 where
  closing outcome' deadline ha := by
    obtain ⟨rfl, -⟩ := Activity.closing.inj ha
    exact ⟨houtcome, hwhy⟩
  ended outcome' ha := by cases ha

theorem Ends.mono (h : Ends a₀ asked t m) : Ends a₀ true t m where
  closing outcome deadline ha := ⟨(h.closing outcome deadline ha).1, fun _ => Or.inl rfl⟩
  ended outcome ha := by
    obtain ⟨calls, r, hdone, hbefore, houtcome, -⟩ := h.ended outcome ha
    exact ⟨calls, r, hdone, hbefore, houtcome, fun _ => Or.inl rfl⟩

/-- A run takes its leave at an update only if nothing is left to follow. -/
theorem take_listening (hl : m.listening = true) (limit now : Nat) (u : Update) :
    (m.take limit now u).1.listening = true ∨
      m.take limit now u = close { m with aggregate := (heed m.aggregate u).1 } limit now .completed ∧
        (m.aggregate = none ∧ u.status = none ∨ (heed m.aggregate u).1.any (·.allTerminated) = true) := by
  obtain ⟨queue, aggregate, activity⟩ := m
  obtain ⟨key, status⟩ := u
  cases aggregate with
  | none => cases status <;> simp [heed, take, place, listening]
  | some a =>
    have hagain : ∀ a' : Aggregate, listening ⟨queue, some a', activity⟩ = true := fun _ => hl
    cases status with
    | none =>
      cases hd : (a.terminate key).2 with
      | none => by_cases he : (a.terminate key).1.allTerminated = true <;>
          simp [heed, take, Aggregate.hear, hd, he, exhausted, hagain]
      | some d => simp [take, hd, place, listening]
    | some s =>
      cases hd : (a.report key s).2 with
      | none => by_cases he : (a.report key s).1.allTerminated = true <;>
          simp [heed, take, Aggregate.hear, hd, he, exhausted, hagain]
      | some d => simp [take, hd, place, listening]

theorem Tracks.exhausts {taken : List Update} (h : Tracks a₀ t m taken) (he : m.exhausted = true) :
    Exhausts a₀ t.heard := by
  refine ⟨taken, ⟨m.queue, h.heard.symm⟩, Or.inr ?_⟩
  rw [← h.aggregate]
  exact he

theorem Ends.next (hk : Keeps a₀ t m) {shutdown : Bool} (hr : m.ready shutdown = true)
    (hasked : shutdown = true → asked = true) (limit now : Nat) :
    Ends a₀ asked (t.call (m.next limit now shutdown).2) (m.next limit now shutdown).1 := by
  have hidle := idle_of_ready hr
  obtain ⟨hp, taken, ht⟩ := hk.of_idle hidle
  have hdone := RelayEnd.ofCalls_of_succeeded ht.done
  unfold Relay.next
  rw [hidle]
  cases shutdown with
  | true => exact .close _ _ _ hdone.symm fun _ => Or.inl (hasked rfl)
  | false =>
    cases hq : m.queue with
    | nil =>
      have he : m.exhausted = true := by simpa [ready, hidle, hq] using hr
      simp only [he, if_true]
      exact .close _ _ _ hdone.symm fun _ => Or.inr (ht.exhausts he)
    | cons u rest =>
      have hexhausts : ∀ a, (heed m.aggregate u).1 = a → (m.aggregate = none ∧ u.status = none ∨
          a.any (·.allTerminated) = true) → Exhausts a₀ t.heard := by
        intro a ha hwhy
        refine ⟨taken ++ [u], ⟨rest, by simp [ht.heard, hq]⟩, ?_⟩
        rw [mirror_concat, ← ht.aggregate, ha]
        obtain ⟨hnone, hu⟩ | hall := hwhy
        · exact Or.inl ⟨by rw [← ha, hnone, heed], u, by simp, hu⟩
        · exact Or.inr hall
      obtain hl | ⟨hclose, hwhy⟩ := take_listening (m := ⟨rest, m.aggregate, .idle⟩) rfl limit now u
      · exact .of_listening hl
      · simp only [Bool.false_eq_true, if_false, hclose]
        exact .close _ _ _ hdone.symm fun _ => Or.inr (hexhausts _ rfl hwhy)

theorem Ends.resolve (h : Ends a₀ asked t m) (hk : Keeps a₀ t m) (hd : m.deadline?.isSome = true) (limit now : Nat)
    (r : Result) :
    Ends a₀ asked ((t.answer r).call (m.resolve limit now r).2) (m.resolve limit now r).1 := by
  cases hk with
  | idle _ ha | ended ha => simp [deadline?, ha] at hd
  | @calling taken deadline d ha hp ht =>
    have hanswer : (t.answer r).done = t.done ++ [(d, r)] := by simp [Transcript.answer, hp]
    unfold Relay.resolve
    rw [ha]
    cases r with
    | panicked => exact .close _ _ _ (by simp [hanswer, ofCalls]) fun hp => by cases hp
    | answered r =>
      cases r with
      | error e => exact .close _ _ _ (by simp [hanswer, ofCalls]) fun hp => by cases hp
      | ok =>
        cases he : m.exhausted with
        | true => exact .close _ _ _ (by simp [hanswer, ofCalls]) fun _ => Or.inr (ht.exhausts he)
        | false => exact .of_listening rfl
  | @closing outcome deadline ha hp hm =>
    obtain ⟨houtcome, hwhy⟩ := h.closing outcome deadline ha
    have hanswer : (t.answer r).done = t.done ++ [(farewell, r)] := by simp [Transcript.answer, hp]
    rw [houtcome] at hwhy ha
    unfold Relay.resolve
    rw [ha]
    cases r with
    | answered _ | panicked =>
      exact {
        closing := fun _ _ he => by cases he
        ended := fun _ he => ⟨t.done, _, hanswer, hm.done, (Activity.ended.inj he).symm, hwhy⟩ }

/-- What a run that follows one probe or several has heard of each of them once nothing is left to follow. -/
theorem Exhausts.heard {aggregated : Bool} {keys : List String} {heard : List Update}
    (h : Exhausts (if aggregated then some (.new keys) else none) heard)
    (hsingle : aggregated = false → ∃ key, keys = [key]) (hknown : ∀ u ∈ heard, u.key ∈ keys) :
    ∀ key ∈ keys, none ∈ newsOf key heard := by
  obtain ⟨taken, htaken, hover⟩ := h
  have hmono : ∀ key, none ∈ newsOf key taken → none ∈ newsOf key heard := fun key hmem =>
    ((htaken.filter _).map _).subset hmem
  intro key hkey
  cases aggregated with
  | false =>
    obtain ⟨key, rfl⟩ := hsingle rfl
    obtain rfl := List.mem_singleton.mp hkey
    obtain ⟨-, u, hu, hnone⟩ | hany := hover
    · refine hmono _ (List.mem_map.mpr ⟨u, List.mem_filter.mpr ⟨hu, ?_⟩, hnone⟩)
      exact decide_eq_true (List.mem_singleton.mp (hknown u (htaken.subset hu)))
    · simp [mirror_none] at hany
  | true =>
    have hmirror := (mirror_some keys taken).1
    simp only [if_true, hmirror, reduceCtorEq, false_and, false_or, Option.any_some] at hover
    rw [(Aggregate.Coherent.ofNews keys taken).allTerminated_iff] at hover
    have hslot := hover key _ (by rw [Aggregate.slot?_ofNews, if_pos hkey])
    exact hmono key ((Slot.mem_of_foldl_after hslot).resolve_left nofun)

end Relay

namespace Sync
open RelayEnd (ofCalls)

variable {s : Sync} {t : Transcript} {past : List Transcript}

theorem supervisor_follow (s : Sync) (now : Nat) (step : Relay × Option Decision) :
    (s.follow now step).supervisor = s.supervisor ∧ (∀ outcome, step.1.activity ≠ .ended outcome) ∨
    ∃ outcome, step.1.activity = .ended outcome ∧
      (s.follow now step).supervisor = s.supervisor.ended now (runEnd s.signal outcome) := by
  obtain ⟨m, d⟩ := step
  unfold follow
  simp only
  cases ha : m.activity with
  | ended outcome => exact Or.inr ⟨outcome, rfl, rfl⟩
  | idle | calling | closing => exact Or.inl ⟨rfl, nofun⟩

theorem ended_follow (s : Sync) (hr : s.running = true) {now : Nat} {step : Relay × Option Decision}
    (h : (s.follow now step).running = false) : ∃ outcome, (s.follow now step).run.activity = .ended outcome ∧
      (s.follow now step).supervisor = s.supervisor.ended now (runEnd s.signal outcome) := by
  obtain ⟨-, hgoes⟩ | ⟨outcome, hended, hsupervisor⟩ := s.supervisor_follow now step
  · exact absurd (h.symm.trans ((running_follow hr now step).mpr hgoes)) Bool.false_ne_true
  · exact ⟨outcome, by rw [run_follow, hended], hsupervisor⟩

structure GoesOn (s : Sync) (now : Nat) (outcome : RelayEnd) (phase : Supervisor.Phase) : Prop where
  completed : outcome = .completed → phase = .exited (if s.supervisor.shutdown then .shutdown else .completed)
  failed : s.supervisor.strategy = .stop → ∀ cause, outcome = .failed cause →
    phase = .exited (.failed (UpdateError.message ⟨s.signal, cause⟩))
  panicked : s.supervisor.strategy = .stop → outcome = .panicked →
    phase = .exited (.failed (s.name ++ " panicked"))
  again : ∀ backoff, s.supervisor.strategy = .restart backoff → outcome ≠ .completed →
    phase = if s.supervisor.shutdown then .exited .shutdown else .waiting (now + backoff.timer)

theorem GoesOn.afterRun (s : Sync) (now : Nat) (outcome : RelayEnd) :
    s.GoesOn now outcome (s.supervisor.afterRun now (runEnd s.signal outcome)) where
  completed h := by subst h; rfl
  failed hs cause h := by
    subst h
    simp [Supervisor.afterRun, runEnd, Supervisor.complaint, hs]
  panicked hs h := by
    subst h
    simp [Supervisor.afterRun, runEnd, Supervisor.complaint, hs, name]
  again backoff hs h := by
    cases outcome with
    | completed => exact absurd rfl h
    | failed cause => simp [Supervisor.afterRun, runEnd, Supervisor.complaint, hs]
    | panicked => simp [Supervisor.afterRun, runEnd, Supervisor.complaint, hs]

structure Concludes (s : Sync) (t : Transcript) (past : List Transcript) : Prop where
  run : Relay.Ends s.blank s.supervisor.shutdown t s.run
  waiting : ∀ resume, s.supervisor.phase = .waiting resume →
    ∃ outcome, s.run.activity = .ended outcome ∧ outcome ≠ .completed
  past : ∀ t ∈ past, ∃ calls r, t.done = calls ++ [(Relay.farewell, r)] ∧ SucceededBeforeLast calls ∧
    (ofCalls calls).after r ≠ .completed

theorem Concludes.start (signal : Signal) (keys : List String) (aggregated : Bool) (limit : Duration)
    (transport : Transport) (strategy : Strategy) (shutdown : Bool) (dead : List String) (now : Nat) :
    (start signal keys aggregated limit transport strategy shutdown dead now).Concludes
      ⟨dead.map (⟨·, none⟩), [], none⟩ [] :=
  ⟨.of_listening rfl, nofun, by simp⟩

theorem Concludes.withTransport (h : s.Concludes t past) (transport : Transport) :
    { s with transport := transport }.Concludes t past :=
  ⟨h.run, h.waiting, h.past⟩

theorem Concludes.follow (h : s.Concludes t past) (hr : s.running = true) {t' : Transcript}
    {step : Relay × Option Decision} (he : Relay.Ends s.blank s.supervisor.shutdown t' step.1) (now : Nat) :
    (s.follow now step).Concludes t' past := by
  obtain ⟨hkeys, haggregated⟩ := s.follow_frame now step
  have hblank : (s.follow now step).blank = s.blank := by rw [blank, blank, hkeys, haggregated]
  have hphase : s.supervisor.phase = .running := by simpa [running] using hr
  obtain ⟨hsame, -⟩ | ⟨outcome, hended, hsupervisor⟩ := s.supervisor_follow now step
  · refine ⟨?_, fun resume hw => ?_, h.past⟩
    · rwa [hblank, hsame, run_follow]
    · rw [hsame, hphase] at hw
      cases hw
  · have hended' : s.supervisor.ended now (runEnd s.signal outcome) =
        { s.supervisor with phase := s.supervisor.afterRun now (runEnd s.signal outcome) } := by
      rw [Supervisor.ended, hphase]
    rw [hended'] at hsupervisor
    refine ⟨?_, fun resume hw => ⟨outcome, ?_, ?_⟩, h.past⟩
    · rwa [hblank, hsupervisor, run_follow]
    · rw [run_follow, hended]
    · rintro rfl
      rw [hsupervisor] at hw
      cases hw

theorem Concludes.restart (h : s.Concludes t past) {resume : Nat} (hp : s.supervisor.phase = .waiting resume)
    (dead : List String) (now : Nat) :
    { s with supervisor := s.supervisor.resume now, run := freshRun s.keys s.aggregated dead }.Concludes
      ⟨dead.map (⟨·, none⟩), [], none⟩ (t :: past) := by
  obtain ⟨outcome, hended, hne⟩ := h.waiting resume hp
  obtain ⟨calls, r, hdone, hbefore, rfl, -⟩ := h.run.ended outcome hended
  refine ⟨.of_listening rfl, fun resume' hw => ?_, List.forall_mem_cons.mpr ⟨⟨calls, r, hdone, hbefore, hne⟩, h.past⟩⟩
  simp [Supervisor.resume, hp] at hw

theorem Concludes.requestShutdown (h : s.Concludes t past) : s.requestShutdown.Concludes t past := by
  have hasked : s.requestShutdown.supervisor.shutdown = true := by
    unfold Sync.requestShutdown Supervisor.requestShutdown
    simp only
    split <;> rfl
  refine ⟨?_, fun resume hw => ?_, h.past⟩
  · rw [hasked]
    exact h.run.mono
  · unfold Sync.requestShutdown Supervisor.requestShutdown at hw
    simp only at hw
    split at hw
    · simp at hw
    · next hnot => exact absurd hw (hnot resume)

end Sync
end HealthSignal
