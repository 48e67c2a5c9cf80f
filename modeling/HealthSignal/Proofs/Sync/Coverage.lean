import HealthSignal.Proofs.Sync.Unfolding

/-! Whatever the assembly comes to by its own functions may come of its probes and components. -/
namespace HealthSignal

open Carrier

namespace Assembly
variable {now : Nat} {s : Assembly} {logs : Nat → List Episode} {before after : List Carrier}
  {c c' : Carrier} {e e' : Episode} {older older' : List Episode} {sync : Sync} {keys : List String}

def around (s : Assembly) (before : List Carrier) (c : Carrier) (after : List Carrier) : Assembly :=
  { s with carriers := before ++ c :: after }

theorem Unfolds.keeps_around (h : Unfolds now (s.around before c after) logs) :
    ∃ e older, logs before.length = e :: older ∧ c.Keeps (s.around before c after) e older :=
  h.sound.keeps before.length c (by simp [around])

theorem Unfolds.step_around (h : Unfolds now (s.around before c after) logs) (s' : Assembly)
    (hlog : logs before.length = e :: older)
    (hstep : Step now (s.around before c after) c e older (s'.around before c after) c' e' older') :
    Unfolds now (s'.around before c' after) (Function.update logs before.length (e' :: older')) := by
  have hnext := h.step (by simp [around]) hlog hstep
  simpa [around] using hnext

theorem listening_deliver (sync : Sync) (u : Update) : (sync.deliver u).run.listening = sync.run.listening := by
  unfold Sync.deliver
  split <;> rfl

theorem listening_deliverAll (sync : Sync) (key : String) (statuses : List Status) :
    (deliverAll sync key statuses).run.listening = sync.run.listening := by
  induction statuses generalizing sync with
  | nil => rfl
  | cons st rest ih => exact (ih _).trans (listening_deliver sync _)

theorem Unfolds.forward_rest {sub : Subscription} {p : Probe} (hp : s.probe? sub.key = some p)
    (done rest : List Subscription) (news : List Status) {k : Nat}
    (hnews : (p.hub.received sub.id).drop k = news)
    (h : Unfolds now (s.around before ⟨sync, done ++ { sub with seen := k } :: rest⟩ after) logs)
    (hl : sync.run.listening = true) (hk : k ≤ (p.hub.received sub.id).length) :
    ∃ logs', Unfolds now (s.around before ⟨deliverAll sync sub.key news,
      done ++ { sub with seen := (p.hub.received sub.id).length } :: rest⟩ after) logs' := by
  induction news generalizing k sync logs with
  | nil =>
    have hlen : k = (p.hub.received sub.id).length := Nat.le_antisymm hk (List.drop_eq_nil_iff.mp hnews)
    exact ⟨logs, hlen ▸ h⟩
  | cons st news ih =>
    obtain ⟨e, older, hlog, -⟩ := h.keeps_around
    have hst : (p.hub.received sub.id)[k]? = some st := by
      rw [← Nat.add_zero k, ← List.getElem?_drop, hnews]
      rfl
    have hdrop : (p.hub.received sub.id).drop (k + 1) = news := by
      rw [← List.drop_drop, hnews]
      rfl
    have hnext := h.step_around s hlog (.forward done hl rfl hp hst)
    exact ih hdrop hnext (by rwa [listening_deliver]) (List.getElem?_eq_some_iff.mp hst).1

theorem Unfolds.forward {sub : Subscription} {done rest : List Subscription}
    (h : Unfolds now (s.around before ⟨sync, done ++ sub :: rest⟩ after) logs)
    (hl : sync.run.listening = true) :
    (s.forward sync sub).1.run.listening = true ∧ ∃ logs', Unfolds now (s.around before
      ⟨(s.forward sync sub).1, done ++ (s.forward sync sub).2.toList ++ rest⟩ after) logs' := by
  obtain ⟨e, older, -, hk⟩ := h.keeps_around
  obtain ⟨p, hp, hle, -, -⟩ := (hk.attends hl).current sub (by simp)
  have hp : s.probe? sub.key = some p := hp
  obtain ⟨logs', h'⟩ := h.forward_rest hp done rest _ rfl hl hle
  have hl' := (listening_deliverAll sync sub.key ((p.hub.received sub.id).drop sub.seen)).trans hl
  cases hr : p.running with
  | true =>
    rw [forward_of_running hp hr]
    exact ⟨hl', logs', by simpa using h'⟩
  | false =>
    obtain ⟨e', older', hlog', -⟩ := h'.keeps_around
    rw [forward_of_stopped hp hr]
    have hend := h'.step_around s hlog' (.finish done hl' rfl hp hr (Nat.le_refl _))
    exact ⟨(listening_deliver ..).trans hl', _, by simpa using hend⟩

theorem release_around (s : Assembly) (subs : List Subscription) :
    (s.around before c after).release subs = (s.release subs).around before c after := by
  induction subs generalizing s with
  | nil => rfl
  | cons sub rest ih => exact ih (s.modifyProbe sub.key fun p => { p with hub := (p.hub.lose sub.id).settle })

theorem Unfolds.refresh (h : Unfolds now (s.around before c after) logs) :
    ∃ logs', Unfolds now ((s.refresh c).1.around before (s.refresh c).2 after) logs' := by
  obtain ⟨e, older, hlog, hk⟩ := h.keeps_around
  unfold Assembly.refresh
  by_cases hl : c.sync.run.listening = true
  · rw [if_pos (by simp [hl, hk.accounts.running_of_listening hl])]
    have hfold : ∀ (rest done : List Subscription) (sync : Sync) (logs : Nat → List Episode),
        Unfolds now (s.around before ⟨sync, done ++ rest⟩ after) logs → sync.run.listening = true →
        let r := rest.foldl (fun r sub => ((s.forward r.1 sub).1, r.2 ++ (s.forward r.1 sub).2.toList))
          (sync, done)
        ∃ logs', Unfolds now (s.around before ⟨r.1, r.2⟩ after) logs' := by
      intro rest
      induction rest with
      | nil => exact fun done sync logs h _ => ⟨logs, by simpa using h⟩
      | cons sub rest ih =>
        intro done sync logs h hl
        obtain ⟨hl', logs', h'⟩ := h.forward hl
        exact ih _ _ logs' h' hl'
    exact hfold c.subscriptions [] c.sync logs h hl
  · rw [if_neg (by simp [hl])]
    have hstep : Step now (s.around before c after) c e older ((s.around before c after).release c.subscriptions)
        ⟨c.sync, []⟩ e older := .release (by simpa using hl)
    rw [release_around] at hstep
    exact ⟨_, h.step_around _ hlog hstep⟩

theorem Unfolds.refreshAll (h : Unfolds now s logs) : ∃ logs', Unfolds now s.refreshAll logs' := by
  have hfold : ∀ (rest cs : List Carrier) (s : Assembly) (logs : Nat → List Episode),
      Unfolds now { s with carriers := cs ++ rest } logs →
      let r := rest.foldl (fun r c => ((r.1.refresh c).1, r.2 ++ [(r.1.refresh c).2])) (s, cs)
      ∃ logs', Unfolds now { r.1 with carriers := r.2 } logs' := by
    intro rest
    induction rest with
    | nil => exact fun cs s logs h => ⟨logs, by simpa using h⟩
    | cons c rest ih =>
      intro cs s logs h
      have h : Unfolds now (s.around cs c rest) logs := h
      obtain ⟨logs', h'⟩ := h.refresh
      refine ih _ _ logs' ?_
      rw [← List.append_cons]
      exact h'
  exact hfold s.carriers [] s logs h

theorem alive_attach (s : Assembly) (key k : String) : (s.attach key).alive k = s.alive k := by
  have hprobe := probe?_modifyProbe s key (fun p => { p with hub := p.hub.subscribe s.nextId }) k
  have hattach : (s.attach key).alive k =
      ((s.modifyProbe key fun p => { p with hub := p.hub.subscribe s.nextId }).probe? k).any (·.running) := rfl
  rw [hattach, hprobe, alive]
  by_cases hk : k = key
  · cases s.probe? k <;> simp [hk]
  · rw [if_neg hk]

/-- The probes that a fresh run subscribes to take it on one after the other. -/
theorem Unfolds.attachAll {keys : List String} (hd : keys.Nodup) {subs : List Subscription}
    (h : Unfolds now (s.around before ⟨sync, subs⟩ after) logs) (hlog : logs before.length = e :: older)
    (hl : sync.run.listening = true) (hkeys : ∀ key ∈ keys, key ∈ e.awaited ∧ s.alive key = true) :
    let r := keys.foldl (fun r key => (r.1.attach key, r.2 ++ [⟨key, r.1.nextId, 0⟩])) (s, subs)
    ∃ logs', Unfolds now (r.1.around before ⟨sync, r.2⟩ after) logs' := by
  induction keys generalizing s subs e logs with
  | nil => exact ⟨logs, h⟩
  | cons key rest ih =>
    obtain ⟨hnot, hd⟩ := List.nodup_cons.mp hd
    obtain ⟨⟨hmem, ha⟩, hrest⟩ := List.forall_mem_cons.mp hkeys
    have hnext := h.step_around (s.attach key) hlog (.attach key hl hmem ha)
    refine ih hd hnext (Function.update_self ..) fun k hk => ?_
    obtain ⟨hkmem, hka⟩ := hrest k hk
    refine ⟨List.mem_filter.mpr ⟨hkmem, ?_⟩, (alive_attach s key k).trans hka⟩
    simp only [decide_eq_true_eq]
    rintro rfl
    exact hnot hk

theorem Unfolds.subscribeAll (h : Unfolds now (s.around before ⟨sync, []⟩ after) logs)
    (hlog : logs before.length = .start s keys :: older) (hl : sync.run.listening = true) (hd : keys.Nodup) :
    ∃ logs', Unfolds now ((s.subscribeAll keys).1.around before ⟨sync, (s.subscribeAll keys).2⟩ after) logs' :=
  h.attachAll (hd.filter _) hlog hl fun _ hkey => ⟨hkey, (List.mem_filter.mp hkey).2⟩

theorem carriers_subscribeAll (s : Assembly) (keys : List String) : (s.subscribeAll keys).1.carriers = s.carriers := by
  have hfold : ∀ (keys : List String) (s : Assembly) (subs : List Subscription),
      (keys.foldl (fun r key => (r.1.attach key, r.2 ++ [⟨key, r.1.nextId, 0⟩])) (s, subs)).1.carriers =
        s.carriers := by
    intro keys
    induction keys with
    | nil => exact fun s subs => rfl
    | cons key rest ih => exact fun s subs => ih (s.attach key) _
  exact hfold _ s []

theorem Unfolds.addSync (h : Unfolds now s logs) (signal : Signal) {keys : List String} {aggregated : Bool}
    (limit : Duration) (transport : Transport) (strategy : Strategy) (hd : keys.Nodup)
    (hsingle : aggregated = false → ∃ key, keys = [key]) :
    ∃ logs', Unfolds now (s.addSync signal keys aggregated limit transport strategy now) logs' := by
  have hadd : Unfolds now (s.around s.carriers _ []) _ :=
    h.add signal keys aggregated limit transport strategy false hd hsingle
  obtain ⟨logs', h'⟩ := hadd.subscribeAll (Function.update_self ..) rfl hd
  unfold Assembly.addSync
  simp only [carriers_subscribeAll]
  exact h'.refreshAll

theorem eq_of_splitDue {t : Nat} {carriers : List Carrier} (h : splitDue t carriers = some (before, c, after)) :
    carriers = before ++ c :: after ∧ c.sync.due.any (· ≤ t) = true := by
  induction carriers generalizing before with
  | nil => simp [splitDue] at h
  | cons d rest ih =>
    by_cases hd : d.sync.due.any (· ≤ t) = true
    · rw [splitDue, if_pos hd] at h
      simp only [Option.some.injEq, Prod.mk.injEq] at h
      obtain ⟨rfl, rfl, rfl⟩ := h
      exact ⟨rfl, hd⟩
    · rw [splitDue, if_neg hd] at h
      obtain ⟨⟨before', c', after'⟩, h', heq⟩ := Option.map_eq_some_iff.mp h
      simp only [Prod.mk.injEq] at heq
      obtain ⟨rfl, rfl, rfl⟩ := heq
      obtain ⟨hrest, hdue⟩ := ih h'
      exact ⟨by rw [hrest]; rfl, hdue⟩

/-- A run that puts updates before a request to shut down has no less to do. -/
theorem ready_updates_first {m : Relay} {shutdown : Bool} (h : m.ready shutdown = true) :
    m.ready (shutdown && m.queue.isEmpty) = true := by
  unfold Relay.ready at *
  cases hq : m.queue.isEmpty <;> simpa [hq] using h

/-- A run that is due and has nothing to do between calls is in a call. -/
theorem deadline_of_due {d : Nat} (hphase : sync.supervisor.phase = .running)
    (hready : sync.run.ready sync.supervisor.shutdown = false) (hd : sync.due = some d) :
    sync.run.deadline?.isSome = true := by
  rw [← Option.ne_none_iff_isSome]
  intro hnone
  have hanswer : sync.answerTime? = none := by
    unfold Sync.answerTime?
    rw [hnone]
    split
    · rfl
    · simp_all
    · rfl
  simp [Sync.due, hphase, hready, hanswer, hnone] at hd

theorem Unfolds.actCarrier (h : Unfolds now (s.around before c after) logs)
    (hdue : c.sync.due.any (· ≤ now) = true) :
    ∃ logs', Unfolds now ((s.actCarrier now c).1.around before (s.actCarrier now c).2 after) logs' := by
  obtain ⟨e, older, hlog, hk⟩ := h.keeps_around
  obtain ⟨d, hd, hnow⟩ : ∃ d, c.sync.due = some d ∧ d ≤ now := by simpa [Option.any_eq_true] using hdue
  unfold Assembly.actCarrier Sync.act Supervisor.timer?
  cases hphase : c.sync.supervisor.phase with
  | exited x => simp [Sync.due, hphase] at hd
  | waiting resume =>
    have hresume : resume ≤ now := by
      simp only [Sync.due, hphase, Option.some.injEq] at hd
      exact hd ▸ hnow
    have hnext := h.step_around s hlog (.restart hphase hresume)
    exact hnext.subscribeAll (Function.update_self ..) rfl hk.distinct
  | running =>
    have hrun : c.sync.running = true := by simp [Sync.running, hphase]
    cases hready : c.sync.run.ready c.sync.supervisor.shutdown with
    | true =>
      have hasked : (c.sync.supervisor.shutdown && c.sync.run.queue.isEmpty) = true → c.sync.supervisor.shutdown = true :=
        fun hboth => (Bool.and_eq_true_iff.mp hboth).1
      exact ⟨_, h.step_around s hlog (.proceed _ hrun hasked (ready_updates_first hready))⟩
    | false =>
      have hdeadline := deadline_of_due hphase hready hd
      exact ⟨_, h.step_around { s with surroundings := _ } hlog (.resolve hrun hdeadline hd hnow rfl)⟩

theorem Unfolds.act (h : Unfolds now s logs) : ∃ logs', Unfolds now (s.act now) logs' := by
  unfold Assembly.act
  split
  · next key _ _ => exact (h.stir (.act key)).refreshAll
  · split
    · next before c after hsplit =>
      obtain ⟨hcarriers, hdue⟩ := eq_of_splitDue hsplit
      have haround : s = s.around before c after := by
        rw [around, ← hcarriers]
      rw [haround] at h
      obtain ⟨logs', h'⟩ := h.actCarrier hdue
      exact h'.refreshAll
    · exact ⟨logs, h⟩

theorem Unfolds.advance {horizon : Nat} (h : Unfolds now s logs) (hle : now ≤ horizon) :
    ∃ logs', Unfolds horizon (s.advance now horizon) logs' := by
  unfold Assembly.advance
  generalize Timeline.steps _ _ _ _ = fuel
  induction fuel generalizing now s logs with
  | zero => exact ⟨logs, h.pass hle⟩
  | succ fuel ih =>
    unfold Timeline.run
    split
    · next t ht =>
      split
      · next hth =>
        obtain ⟨logs', h'⟩ := (h.pass (Nat.le_max_right t now)).act
        exact ih h' (Nat.max_le.mpr ⟨hth, hle⟩)
      · exact ⟨logs, h.pass hle⟩
    · exact ⟨logs, h.pass hle⟩

theorem Unfolds.command {key : String} {f : Probe → Except ProbeError Probe} (h : Unfolds now s logs)
    (hf : ∀ p q, s.probe? key = some p → f p = .ok q → Stir now s (s.modifyProbe key fun _ => q)) :
    ∃ logs', Unfolds now (s.command key f).1 logs' := by
  unfold Assembly.command
  split
  · exact ⟨logs, h⟩
  · next p hp =>
    split
    · next q hq => exact (h.stir (hf p q hp hq)).refreshAll
    · exact ⟨logs, h⟩

theorem Unfolds.set (h : Unfolds now s logs) (key : String) (st : Status) :
    ∃ logs', Unfolds now (s.command key (·.set st)).1 logs' :=
  h.command fun _ _ hp hq => .set st hp hq

theorem Unfolds.mail (h : Unfolds now s logs) (key : String) (m : Mail)
    (hm : ∀ id ∈ m.about, id < s.nextId ∧ ∀ c ∈ s.carriers, ∀ sub ∈ c.subscriptions, sub.id ≠ id) :
    ∃ logs', Unfolds now (s.command key (·.command m.deliver)).1 logs' :=
  h.command fun _ _ hp hq => .mail m hp hq hm

theorem Unfolds.stopProbe (h : Unfolds now s logs) (key : String) :
    ∃ logs', Unfolds now (s.stopProbe key) logs' :=
  (h.stir (.stop key)).refreshAll

theorem Unfolds.requestShutdown (h : Unfolds now s logs) : ∃ logs', Unfolds now s.requestShutdown logs' := by
  have hall : ∀ (rest told : List Carrier) (logs : Nat → List Episode),
      Unfolds now { s with carriers := told ++ rest } logs → ∃ logs', Unfolds now
        { s with carriers := told ++ rest.map fun c => { c with sync := c.sync.requestShutdown } } logs' := by
    intro rest
    induction rest with
    | nil => exact fun told logs h => ⟨logs, h⟩
    | cons c rest ih =>
      intro told logs h
      have h : Unfolds now (s.around told c rest) logs := h
      obtain ⟨e, older, hlog, -⟩ := h.keeps_around
      have hnext := h.step_around s hlog .shutdown
      rw [around, List.append_cons] at hnext
      obtain ⟨logs', h'⟩ := ih _ _ hnext
      exact ⟨logs', by simpa using h'⟩
  exact hall s.carriers [] logs h

end Assembly
end HealthSignal
