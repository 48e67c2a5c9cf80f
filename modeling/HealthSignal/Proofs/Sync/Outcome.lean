import HealthSignal.Proofs.Sync.Ending
import HealthSignal.Proofs.Sync.Unfolding

/-! How components end. A component goes on after a run as the mirroring of the run came out, unless the call
that lowers the signal panics. -/
namespace HealthSignal

open RelayEnd (ofCalls)

namespace Carrier
variable {now : Nat} {s s' : Assembly} {c c' : Carrier} {e e' : Episode} {older older' : List Episode}

structure Concludes (s : Assembly) (c : Carrier) (e : Episode) (older : List Episode) : Prop where
  sync : c.sync.Concludes e.transcript (older.map (·.transcript))
  dead : ∀ key, none ∈ newsOf key e.transcript.heard → s.alive key = false

theorem dead_of_start (s : Assembly) (keys : List String) (key : String)
    (h : none ∈ newsOf key (Episode.start s keys).transcript.heard) : s.alive key = false := by
  obtain ⟨u, hu, -⟩ := List.mem_map.mp h
  obtain ⟨hu, hkey⟩ := List.mem_filter.mp hu
  obtain ⟨k, hk, rfl⟩ := List.mem_map.mp hu
  obtain rfl : k = key := by simpa using hkey
  simpa using (List.mem_filter.mp hk).2

theorem Concludes.evolve {taken : List SubscriberId} (h : c.Concludes s e older) (he : s.Evolves taken s') :
    c.Concludes s' e older :=
  ⟨h.sync, fun key hkey => he.dead (h.dead key hkey)⟩

theorem Concludes.hear (h : c.Concludes s e older) (hk : c.Keeps s e older) (hl : c.sync.run.listening = true)
    {u : Update} (hu : u.status = none → s.alive u.key = false) (subs : List Subscription)
    (he : e'.transcript = e.transcript.hear u) : Concludes s ⟨c.sync.deliver u, subs⟩ e' older where
  sync := by
    rw [Sync.deliver_of_listening (hk.accounts.running_of_listening hl) hl]
    exact ⟨.of_listening hl, h.sync.waiting, h.sync.past⟩
  dead key hnews := by
    rw [he, Transcript.hear, newsOf_concat] at hnews
    split at hnews
    · next heq =>
      obtain hold | hnew := List.mem_append.mp hnews
      · exact h.dead key hold
      · exact heq ▸ hu (List.mem_singleton.mp hnew).symm
    · exact h.dead key hnews

theorem Concludes.step (h : c.Concludes s e older) (hk : c.Keeps s e older)
    (hstep : Step now s c e older s' c' e' older') : c'.Concludes s' e' older' := by
  have he := hstep.evolves
  cases hstep with
  | attach | release => exact ⟨h.sync, fun key hkey => he.dead (h.dead key hkey)⟩
  | shutdown => exact ⟨h.sync.requestShutdown, h.dead⟩
  | miss key hl _ hdead => exact h.hear hk hl (fun _ => hdead) _ rfl
  | forward _ hl => exact h.hear hk hl (by simp) _ rfl
  | finish _ hl _ hp hr _ => exact h.hear hk hl (fun _ => Assembly.dead_of_stopped hp hr) _ rfl
  | proceed shutdown hr hasked hready =>
    exact ⟨h.sync.follow hr (.next hk.accounts.run hready hasked ..) now, h.dead⟩
  | @resolve _ sync w r hr hdeadline _ _ houtcome =>
    obtain ⟨transport, rfl⟩ := Sync.outcome_frame houtcome
    exact ⟨(h.sync.withTransport transport).follow hr (h.sync.run.resolve hk.accounts.run hdeadline ..) now, h.dead⟩
  | restart hphase _ => exact ⟨h.sync.restart hphase _ now, dead_of_start s c.sync.keys⟩

/-- A component that is through stays so. -/
theorem Step.exited (h : Step now s c e older s' c' e' older') {x : Exit}
    (hx : c.sync.supervisor.phase = .exited x) : c'.sync.supervisor.phase = .exited x ∧ older' = older := by
  cases h with
  | attach | release => exact ⟨hx, rfl⟩
  | miss | forward | finish => exact ⟨by rw [Sync.supervisor_deliver, hx], rfl⟩
  | proceed _ hr | resolve hr => simp [Sync.running, hx] at hr
  | restart hphase => simp [hx] at hphase
  | shutdown =>
    refine ⟨?_, rfl⟩
    simp [Sync.requestShutdown, Supervisor.requestShutdown, hx]

/-- What a step that ends a run makes of the component. -/
theorem Step.ending (h : Step now s c e older s' c' e' older') (hr : c.sync.running = true)
    (hr' : c'.sync.running = false) : older' = older ∧ ∃ outcome, c'.sync.run.activity = .ended outcome ∧
      c'.sync.supervisor = c.sync.supervisor.ended now (Sync.runEnd c.sync.signal outcome) := by
  cases h with
  | attach | release => simp [hr] at hr'
  | miss | forward | finish =>
    rw [Sync.running, Sync.supervisor_deliver] at hr'
    exact absurd (hr'.symm.trans hr) Bool.false_ne_true
  | proceed => exact ⟨rfl, c.sync.ended_follow hr hr'⟩
  | @resolve _ sync w r _ hdeadline _ _ houtcome =>
    obtain ⟨transport, rfl⟩ := Sync.outcome_frame houtcome
    exact ⟨rfl, Sync.ended_follow { c.sync with transport := transport } hr hr'⟩
  | restart hphase => simp [Sync.running, hphase] at hr
  | shutdown =>
    have hphase : c.sync.supervisor.phase = .running := by simpa [Sync.running] using hr
    simp [Sync.requestShutdown, Supervisor.requestShutdown, Sync.running, hphase] at hr'

end Carrier

namespace Assembly
open Carrier

variable {now i : Nat} {s : Assembly} {logs : Nat → List Episode} {c : Carrier} {e : Episode} {older : List Episode}

theorem Unfolds.concludes (h : Unfolds now s logs) :
    ∀ i c, s.carriers[i]? = some c → ∃ e older, logs i = e :: older ∧ c.Concludes s e older := by
  induction h with
  | new hcarriers => simp [hcarriers]
  | pass _ _ ih => exact ih
  | stir _ hs ih =>
    obtain ⟨hcarriers, taken, he, -⟩ := hs.evolves
    intro i c hc
    obtain ⟨e, older, hlog, hk⟩ := ih i c (hcarriers ▸ hc)
    exact ⟨e, older, hlog, hk.evolve he⟩
  | @add now s logs signal keys aggregated limit transport strategy shutdown _ _ _ ih =>
    have he : ∀ c, s.Evolves [] (s.join c) := fun c => .of_probes (Nat.le_refl _) rfl
    intro i c hc
    obtain ⟨hc, hi⟩ | ⟨rfl, rfl⟩ := carriers_join hc
    · obtain ⟨e, older, hlog, hk⟩ := ih i c hc
      exact ⟨e, older, by rw [Function.update_of_ne hi, hlog], hk.evolve (he _)⟩
    · exact ⟨_, [], Function.update_self .., ⟨.start .., dead_of_start s keys⟩⟩
  | @step now i s s' logs c c' e e' older older' h hc hlog hstep ih =>
    obtain ⟨e₀, older₀, hlog₀, hk⟩ := h.sound.keeps i c hc
    obtain ⟨rfl, rfl⟩ := List.cons.inj (hlog.symm.trans hlog₀)
    obtain ⟨e₁, older₁, hlog₁, hends⟩ := ih i c hc
    obtain ⟨rfl, rfl⟩ := List.cons.inj (hlog.symm.trans hlog₁)
    have hforget : s'.Evolves [] { s' with carriers := s.carriers.set i c' } := .of_probes (Nat.le_refl _) rfl
    intro j d hd
    obtain ⟨rfl, rfl⟩ | ⟨hj, hold⟩ := carriers_set hc hd
    · exact ⟨e', older', Function.update_self .., (hends.step hk hstep).evolve hforget⟩
    · obtain ⟨e, older, hlogj, hkd⟩ := ih j d hold
      exact ⟨e, older, by rw [Function.update_of_ne hj, hlogj], (hkd.evolve hstep.evolves).evolve hforget⟩

/-- A run that another one followed had not completed. When a run ends, all of its calls before the last one that it
mirrored with succeeded, and it completes only if shutdown was requested or all of its probes have ended. It comes to
what mirroring did, unless the call that lowers the signal panics, and the component goes on accordingly; once
through, it stays so. -/
theorem ends_as_mirrored (h : Unfolds now s logs) (hc : s.carriers[i]? = some c) (hlog : logs i = e :: older) :
    (∀ e' ∈ older, ∃ calls r, e'.transcript.done = calls ++ [(Relay.farewell, r)] ∧
      SucceededBeforeLast calls ∧ (ofCalls calls).after r ≠ .completed) ∧
    ∀ s' c' e' older', Step now s c e older s' c' e' older' →
      (c.sync.running = true → c'.sync.running = false → older' = older ∧
        ∃ calls r, e'.transcript.done = calls ++ [(Relay.farewell, r)] ∧ SucceededBeforeLast calls ∧
          (ofCalls calls = .completed → c.sync.supervisor.shutdown = true ∨
            ∀ key ∈ c'.sync.keys, s'.alive key = false) ∧
          c'.sync.run.activity = .ended ((ofCalls calls).after r) ∧
          c.sync.GoesOn now ((ofCalls calls).after r) c'.sync.supervisor.phase) ∧
      ∀ x, c.sync.supervisor.phase = .exited x → c'.sync.supervisor.phase = .exited x ∧ older' = older := by
  obtain ⟨e₀, older₀, hlog₀, hk⟩ := h.sound.keeps i c hc
  obtain ⟨rfl, rfl⟩ := List.cons.inj (hlog.symm.trans hlog₀)
  obtain ⟨e₁, older₁, hlog₁, hends⟩ := h.concludes i c hc
  obtain ⟨rfl, rfl⟩ := List.cons.inj (hlog.symm.trans hlog₁)
  refine ⟨fun e' he' => hends.sync.past _ (List.mem_map_of_mem he'), fun s' c' e' older' hstep =>
    ⟨fun hr hr' => ?_, fun x hx => hstep.exited hx⟩⟩
  obtain ⟨hpast, outcome, hended, hsupervisor⟩ := hstep.ending hr hr'
  have hends' := hends.step hk hstep
  have hk' := hk.step h.sound.fresh hstep
  have hphase : c.sync.supervisor.phase = .running := by simpa [Sync.running] using hr
  rw [Supervisor.ended, hphase] at hsupervisor
  obtain ⟨calls, r, hdone, hbefore, rfl, hwhy⟩ := hends'.sync.run.ended outcome hended
  refine ⟨hpast, calls, r, hdone, hbefore, fun hcompleted => ?_, hended, ?_⟩
  · obtain hasked | hexhausts := hwhy hcompleted
    · exact Or.inl (by simpa [hsupervisor] using hasked)
    · have hheard := hexhausts.heard hk'.single (hk'.delivered e' List.mem_cons_self).known
      exact Or.inr fun key hkey => hends'.dead key (hheard key hkey)
  · rw [hsupervisor]
    exact .afterRun ..

theorem completed_after_hang :
    ∃ s logs c e s' c' e', Unfolds 1000 s logs ∧ s.carriers[0]? = some c ∧ logs 0 = [e] ∧
      Step 1000 s c e [] s' c' e' [] ∧ c'.sync.supervisor.phase = .exited .completed ∧
      ∃ calls r, e'.transcript.done = calls ++ [(Relay.farewell, r)] ∧
        c'.sync.run.activity = .ended ((ofCalls calls).after r) := by
  have hnew : Unfolds 0
      (.new ⟨1, .empty, 0, [], false⟩ [("p", .manual "p" .liveness (.good "ready"))] .empty) _ :=
    .of_probes (List.forall_mem_singleton.mpr rfl)
  have hadd := (hnew.stir (.stop "p")).add .liveness ["p"] false ⟨1000⟩ (.rehearsed fun _ _ => ⟨⟨0⟩, .hangs⟩)
    .stop false (by decide) fun _ => ⟨_, rfl⟩
  have hclosing := hadd.step (i := 0) rfl rfl (.proceed false rfl (by decide) rfl)
  have hlate := hclosing.pass (Nat.zero_le 1000)
  obtain ⟨-, hsteps⟩ := ends_as_mirrored (i := 0) hlate rfl rfl
  obtain ⟨-, calls, r, hdone, -, -, hended, -⟩ :=
    (hsteps _ _ _ _ (.resolve (d := 1000) rfl rfl rfl (Nat.le_refl 1000) rfl)).1 rfl rfl
  exact ⟨_, _, _, _, _, _, _, hlate, rfl, rfl, .resolve (d := 1000) rfl rfl rfl (Nat.le_refl 1000) rfl, rfl,
    calls, r, hdone, hended⟩

/-- A run that mirrored everything until its probe ended, but whose last call panics: the component fails. -/
theorem failed_after_farewell :
    ∃ s logs c e s' c' e', Unfolds 0 s logs ∧ s.carriers[0]? = some c ∧ logs 0 = [e] ∧
      c.sync.run.activity = .closing .completed 1000 ∧ (∀ x ∈ e.transcript.done, Succeeded x) ∧
      (∀ key ∈ c.sync.keys, s.alive key = false) ∧ Step 0 s c e [] s' c' e' [] ∧
      c'.sync.run.activity = .ended .panicked ∧
      c'.sync.supervisor.phase = .exited (.failed "liveness-sync panicked") := by
  have hnew : Unfolds 0
      (.new ⟨1, .empty, 0, [], false⟩ [("p", .manual "p" .liveness (.good "ready"))] .empty) _ :=
    .of_probes (List.forall_mem_singleton.mpr rfl)
  have hadd := hnew.add .liveness ["p"] false ⟨1000⟩
    (.rehearsed fun go _ => ⟨⟨0⟩, if go then .answers (.ok ()) else .panics⟩) .stop false (by decide)
    fun _ => ⟨_, rfl⟩
  have hsubscribed := hadd.step (i := 0) rfl rfl (.attach "p" rfl (by decide) rfl)
  have hheard := hsubscribed.step (i := 0) rfl rfl (.forward [] rfl rfl rfl rfl)
  have hcalled := hheard.step (i := 0) rfl rfl (.proceed false rfl (by decide) rfl)
  have hraised := hcalled.step (i := 0) rfl rfl (.resolve (d := 0) rfl rfl rfl (Nat.le_refl 0) rfl)
  have hover := (hraised.stir (.stop "p")).step (i := 0) rfl rfl (.finish [] rfl rfl rfl rfl (Nat.le_refl 1))
  have hclosing := hover.step (i := 0) rfl rfl (.proceed false rfl (by decide) rfl)
  exact ⟨_, _, _, _, _, _, _, hclosing, rfl, rfl, rfl, List.forall_mem_singleton.mpr rfl,
    List.forall_mem_singleton.mpr rfl, .resolve (d := 0) rfl rfl rfl (Nat.le_refl 0) rfl, rfl, rfl⟩

end Assembly
end HealthSignal
