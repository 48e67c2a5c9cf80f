import HealthSignal.Proofs.Probe.Undisturbed

/-! Cluster probes after the end of their feed. Nothing changes the status of a probe that has seen its feed close,
except a debounce that was still running: when it has passed, the node counts as isolated. -/
namespace HealthSignal

namespace Isolation

def Poised (i : Isolation) (v : ClusterView) : Prop :=
  i.timer.isSome = true → v.alone = true ∧ i.isolated = false

variable {i : Isolation} {v : ClusterView}

theorem Poised.reconcile (h : i.Poised v) (now : Nat) (u : ClusterView) : (i.reconcile now u).Poised u := by
  unfold Isolation.reconcile
  split
  · next hu =>
    split
    · next hset => exact fun _ => ⟨hu, by simp_all⟩
    · exact fun ht => ⟨hu, (h ht).2⟩
  · intro ht
    cases ht

theorem poised_elapse (i : Isolation) (v u : ClusterView) : (i.elapse v).Poised u := by
  intro ht
  cases ht

end Isolation

namespace ClusterWatch

def pending (w : ClusterWatch) : Option Nat := w.isolation.bind (·.timer)

def lapse (w : ClusterWatch) : ClusterWatch :=
  { w with isolation := w.isolation.map (·.elapse w.view) }

def Poised (w : ClusterWatch) : Prop := ∀ i ∈ w.isolation, i.Poised w.view

variable {w : ClusterWatch} {feed : Feed} {now t : Nat}

theorem Poised.reconcile (h : w.Poised) (v : ClusterView) (r : Receiver) (now : Nat) :
    (ClusterWatch.reconcile { w with view := v, receiver := r } now).Poised := by
  intro j hj
  obtain ⟨i, hi, rfl⟩ := Option.map_eq_some_iff.mp hj
  exact (h i hi).reconcile now v

theorem poised_lapse (w : ClusterWatch) : w.lapse.Poised := by
  intro j hj
  obtain ⟨i, -, rfl⟩ := Option.map_eq_some_iff.mp hj
  exact i.poised_elapse w.view w.view

theorem poised_start (feed : Feed) (node : String) (debounce : Option Duration) (now : Nat) :
    (start feed node debounce now).Poised := by
  refine Poised.reconcile (w := ⟨.new node feed.snapshot, debounce.map .new, feed.subscribe, true⟩) ?_ _ _ now
  intro i hi ht
  obtain ⟨d, -, rfl⟩ := Option.map_eq_some_iff.mp hi
  cases ht

theorem Poised.receive (h : w.Poised) (now : Nat) (feed : Feed) : (w.receive now feed).Poised := by
  unfold ClusterWatch.receive
  split
  · exact h.reconcile _ _ now
  · exact h.reconcile _ _ now
  · exact h
  · exact h

theorem Poised.act (h : w.Poised) (now : Nat) (feed : Feed) : (w.act now feed).Poised := by
  unfold ClusterWatch.act
  split
  · exact h.receive now feed
  · exact w.poised_lapse

/-- No act makes a watch look for isolation, or stop doing so. -/
theorem isNone_isolation_act (w : ClusterWatch) (now : Nat) (feed : Feed) :
    (w.act now feed).isolation.isNone = w.isolation.isNone := by
  unfold ClusterWatch.act ClusterWatch.receive
  split
  · split <;> simp [ClusterWatch.reconcile]
  · simp

theorem ready_of_closed (h : w.feedOpen = false) (feed : Feed) : w.ready feed = false := by
  rw [ready, h, Bool.false_and]

/-- Once the feed is seen to be closed, the timer alone is waited for. -/
theorem due_of_closed (h : w.feedOpen = false) (feed : Feed) : w.due feed = w.pending := by
  rw [due, ready_of_closed h, if_neg Bool.false_ne_true]
  rfl

theorem act_of_closed (h : w.feedOpen = false) (now : Nat) (feed : Feed) : w.act now feed = w.lapse := by
  rw [act, ready_of_closed h, if_neg Bool.false_ne_true]
  rfl

theorem pending_lapse (w : ClusterWatch) : w.lapse.pending = none := by
  cases hi : w.isolation <;> simp [pending, lapse, Isolation.elapse, hi]

theorem status_lapse_of_not_joined (h : w.view.joined = false) : w.lapse.status = w.status := by
  cases hi : w.isolation <;> simp [status, lapse, hi, ClusterView.readiness_of_not_joined h, Isolation.elapse]

theorem pending_eq_some : w.pending = some t ↔ ∃ i, w.isolation = some i ∧ i.timer = some t := by
  simp [pending, Option.bind_eq_some_iff]

/-- When the timer of a poised watch has run out, the node is isolated, which it was not before. -/
theorem Poised.status_lapse (h : w.Poised) {i : Isolation} (hi : w.isolation = some i) (ht : i.timer = some t) :
    w.lapse.status = w.view.readiness i.debounce true ∧ w.status = w.view.readiness i.debounce false := by
  obtain ⟨halone, hopen⟩ := h i hi (by rw [ht]; rfl)
  simp [status, lapse, hi, Isolation.elapse, halone, hopen]

end ClusterWatch

namespace Probe

@[simp] theorem signal_follow (p : Probe) (s : Option Status) : (p.follow s).signal = p.signal := by
  cases s <;> rfl

def Poised (p : Probe) : Prop :=
  ∀ w, p.source = .cluster w → w.Poised ∧ (p.signal = .liveness → w.isolation.isNone = true)

variable {p q : Probe}

theorem Poised.of_eq (h : p.Poised) (hsource : q.source = p.source) (hsignal : q.signal = p.signal) :
    q.Poised :=
  fun w hw => hsignal ▸ h w (hsource ▸ hw)

theorem Poised.act (h : p.Poised) (feed : Feed) (t : Nat) : (p.act feed t).Poised := by
  intro w' hw'
  cases hs : p.source with
  | fixed => simp [Probe.act, hs] at hw'
  | manual => simp [act_manual hs, source_publishNext hs] at hw'
  | cluster w =>
    rw [act_cluster hs] at hw' ⊢
    obtain rfl : _ = w' := Source.cluster.inj ((source_follow _ _).symm.trans hw')
    obtain ⟨hp, hlive⟩ := h w hs
    refine ⟨hp.act t feed, fun hsig => ?_⟩
    rw [w.isNone_isolation_act]
    exact hlive (by rwa [signal_follow] at hsig)
  | persistence s => simp [source_act hs] at hw'

theorem Poised.stop (h : p.Poised) : p.stop.Poised := by
  intro w hw
  cases hs : p.source with
  | cluster v => exact h w (hs.trans (by simpa [Probe.stop, hs] using hw))
  | _ => simp [Probe.stop, hs] at hw

theorem Poised.tamper (h : p.Poised) (f : Journal → Journal) : (p.tamper f).Poised := by
  intro w hw
  cases hs : p.source with
  | cluster v =>
    simp only [Probe.tamper, hs] at hw ⊢
    exact h w (hs.trans hw)
  | _ => simp [Probe.tamper, hs] at hw

theorem Poised.turn (h : p.Poised) (m : Mail) : (p.turn m).Poised := by
  unfold Probe.turn
  split
  · split
    · exact h.of_eq (source_follow _ _) (signal_follow _ _)
    · exact h.of_eq rfl rfl
  · exact h

end Probe

namespace Scene
open Timeline

variable {x y z z' : Scene} {w : ClusterWatch} {ms ms' : List Move}

theorem Fresh.poised (h : x.Fresh) : x.probe.Poised := by
  intro w hw
  cases h with
  | persistence settings journal faults feed now =>
    rw [Probe.source_persistence] at hw
    cases hw
  | liveness node feed now =>
    obtain rfl := Source.cluster.inj hw
    exact ⟨ClusterWatch.poised_start feed node none now, fun _ => rfl⟩
  | readiness node feed debounce now =>
    obtain rfl := Source.cluster.inj hw
    refine ⟨ClusterWatch.poised_start feed node (some debounce) now, fun hsig => ?_⟩
    cases hsig

theorem poised_step? (h : x.probe.Poised) {m : Move} (hstep : x.step? m = some y) : y.probe.Poised := by
  cases m with
  | act =>
    obtain ⟨d, -, rfl⟩ := step?_act.mp hstep
    exact h.act _ _
  | mail t m =>
    obtain ⟨-, rfl⟩ := step?_mail.mp hstep
    exact h.turn m
  | meet t i =>
    obtain ⟨-, rfl⟩ := step?_meet.mp hstep
    cases i with
    | journal f => exact h.tamper f
    | stop => exact h.stop
    | publish | close | wait => exact h

/-- A step in which a cluster probe does not act: its source and its status stay as they are. -/
structure Rests (x y : Scene) : Prop where
  source : y.probe.source = x.probe.source
  current : y.probe.hub.current = x.probe.hub.current
  changes : y.changes = x.changes
  running : y.probe.running = true → x.probe.running = true
  now_le : x.now ≤ y.now
  inTime : ∀ d ∈ x.due, y.now ≤ max d x.now

theorem rests_become {t : Nat} (ht : x.Allows t) (feed : Feed) {p : Probe} (hsource : p.source = x.probe.source)
    (hcurrent : p.hub.current = x.probe.hub.current) (hrun : p.running = true → x.probe.running = true) :
    x.Rests (x.become t feed p) :=
  ⟨hsource, hcurrent, if_pos hcurrent, hrun, ht.1, ht.2⟩

theorem act_or_rests (hw : x.probe.source = .cluster w) (hshow : x.probe.hub.current = w.status) {m : Move}
    (hstep : x.step? m = some y) : m = .act ∨ x.Rests y := by
  have hshows : x.probe.ShowsWatch := fun v hv => by
    obtain rfl := Source.cluster.inj (hw.symm.trans hv)
    exact hshow
  cases m with
  | act => exact Or.inl rfl
  | mail t m =>
    obtain ⟨ht, rfl⟩ := step?_mail.mp hstep
    have hturn := Probe.sameCourse_turn hshows m
    exact Or.inr (rests_become ht _ hturn.source hturn.current fun h => hturn.running ▸ h)
  | meet t i =>
    obtain ⟨ht, rfl⟩ := step?_meet.mp hstep
    refine Or.inr ?_
    cases i with
    | journal f =>
      have hsame : x.probe.tamper f = x.probe := by simp [Probe.tamper, hw]
      exact rests_become ht _ (by rw [hsame]) (by rw [hsame]) fun h => hsame ▸ h
    | stop => exact rests_become ht _ (by simp [Probe.stop, hw]) rfl fun h => by cases h
    | publish | close | wait => exact rests_become ht _ rfl rfl id

/-- What has become of a scene `y` since its watch `w` saw the feed close: nothing yet, or the timer has run out
at its time. -/
inductive Closed (y : Scene) (w : ClusterWatch) (z : Scene) : Prop
  | waiting : z.probe.source = .cluster w → z.probe.hub.current = w.status → z.changes = y.changes →
    (z.probe.running = true → ∀ t ∈ w.pending, z.now ≤ max t y.now) → Closed y w z
  | lapsed (t : Nat) : t ∈ w.pending → max t y.now ≤ z.now → z.probe.source = .cluster w.lapse →
    z.probe.hub.current = w.lapse.status →
    z.changes = (if w.lapse.status = w.status then y.changes
      else (max t y.now, w.lapse.status) :: y.changes) → Closed y w z

theorem due_of_closed (hw : x.probe.source = .cluster w) (hclosed : w.feedOpen = false) :
    x.due = if x.probe.running then w.pending else none := by
  rw [due, Probe.due_cluster hw, w.due_of_closed hclosed]

theorem Closed.step (h : Closed y w z) (hclosed : w.feedOpen = false) (hy : y.now ≤ z.now) {m : Move}
    (hstep : z.step? m = some z') : Closed y w z' := by
  cases h with
  | waiting hsource hcurrent hchanges htime =>
    have hdue := due_of_closed hsource hclosed
    obtain rfl | hrest := act_or_rests hsource hcurrent hstep
    · obtain ⟨d, hd, rfl⟩ := step?_act.mp hstep
      rw [hdue] at hd
      split at hd
      · next hrun =>
        have hnow : max d z.now = max d y.now := by
          have := htime hrun d hd
          omega
        rw [hnow, Probe.act_cluster hsource, ClusterWatch.act_of_closed hclosed]
        refine .lapsed d hd (Nat.le_refl _) (Probe.source_follow _ _) (Probe.current_follow_some _ _) ?_
        simp only [become, Probe.current_follow_some, hcurrent, hchanges]
      · cases hd
    · refine .waiting (hrest.source.trans hsource) (hrest.current.trans hcurrent)
        (hrest.changes.trans hchanges) ?_
      intro hrun t ht
      have hrun := hrest.running hrun
      have := htime hrun t ht
      have := hrest.inTime t (by rwa [hdue, if_pos hrun])
      omega
  | lapsed t ht hle hsource hcurrent hchanges =>
    obtain rfl | hrest := act_or_rests hsource hcurrent hstep
    · -- no timer is left to act for
      obtain ⟨d, hd, -⟩ := step?_act.mp hstep
      have hdue : z.due = none := by
        rw [due_of_closed hsource hclosed, w.pending_lapse, ite_self]
      rw [hdue] at hd
      cases hd
    · exact .lapsed t ht (Nat.le_trans hle hrest.now_le) (hrest.source.trans hsource)
        (hrest.current.trans hcurrent) (hrest.changes.trans hchanges)

theorem closed_run? (hw : y.probe.source = .cluster w) (hshow : y.probe.hub.current = w.status)
    (hclosed : w.feedOpen = false) (h : y.run? ms = some z) : Closed y w z := by
  have hstart : Closed y w y ∧ y.now ≤ y.now :=
    ⟨.waiting hw hshow rfl fun _ t _ => Nat.le_max_right t y.now, Nat.le_refl _⟩
  have hrun : Closed y w z ∧ y.now ≤ z.now := by
    refine run?_induction (P := fun z => Closed y w z ∧ y.now ≤ z.now) ?_ hstart h
    rintro x x' m ⟨hx, hle⟩ hm
    exact ⟨hx.step hclosed hle hm, Nat.le_trans hle (now_le_step? hm)⟩
  exact hrun.1

theorem showsWatch_current (hx : x.Fresh) (h : x.run? ms = some y) (hw : y.probe.source = .cluster w) :
    y.probe.hub.current = w.status :=
  showsWatch_run? hx.showsWatch h w hw

/-- A running probe that has nothing to do has seen that its feed is closed. -/
theorem seen_of_settled (hw : y.probe.source = .cluster w) (hclosed : y.feed.closed = true)
    (hrun : y.probe.running = true) (hsettled : Settled due y.now y) : w.feedOpen = false := by
  rw [Bool.eq_false_iff]
  intro hopen
  have hready : w.ready y.feed = true := by simp [ClusterWatch.ready, hclosed, hopen]
  have hdue : y.due = some 0 := by
    rw [due, Probe.due_cluster hw, if_pos hrun, ClusterWatch.due, if_pos hready]
  exact Nat.not_lt_zero _ (hsettled 0 hdue)

/-- A cluster probe that has nothing to do has seen that its feed is closed. From then on the status of a liveness
probe stays as it is, and so does that of a readiness probe whose node has not joined or is not about to count as
isolated. A debounce that is running still ends at its time, once, with the node isolated. -/
theorem frozen_but_isolation (hx : x.Fresh) (h : x.run? ms = some y) (hw : y.probe.source = .cluster w) :
    (y.feed.closed = true → y.probe.running = true → Settled due y.now y → w.feedOpen = false) ∧
    ∀ ms' z, w.feedOpen = false → y.run? ms' = some z →
      (y.probe.signal = .liveness ∨ w.pending = none ∨ w.view.joined = false →
        z.probe.hub.current = y.probe.hub.current ∧ z.changes = y.changes) ∧
      ∀ i t, w.isolation = some i → i.timer = some t → w.view.joined = true →
        (z.probe.hub.current = y.probe.hub.current ∧ z.changes = y.changes ∨
          max t y.now ≤ z.now ∧ z.probe.hub.current = w.view.readiness i.debounce true ∧
            z.changes = (max t y.now, w.view.readiness i.debounce true) :: y.changes) ∧
        (z.probe.running = true → Settled due z.now z → t ≤ z.now →
          z.probe.hub.current = w.view.readiness i.debounce true) := by
  refine ⟨seen_of_settled hw, fun ms' z hclosed h' => ?_⟩
  have hshow := showsWatch_current hx h hw
  obtain ⟨hpoised, hlive⟩ :=
    run?_induction (P := fun x => x.probe.Poised) (fun _ _ _ hp hm => poised_step? hp hm) hx.poised h w hw
  rw [hshow]
  have hend := closed_run? hw hshow hclosed h'
  constructor
  · intro hcalm
    cases hend with
    | waiting _ hcurrent hchanges => exact ⟨hcurrent, hchanges⟩
    | lapsed t ht _ _ hcurrent hchanges =>
      have hsame : w.lapse.status = w.status := by
        obtain hsig | hnone | hjoined := hcalm
        · have hnone := Option.isNone_iff_eq_none.mp (hlive hsig)
          simp [ClusterWatch.pending, hnone] at ht
        · rw [hnone] at ht
          cases ht
        · exact ClusterWatch.status_lapse_of_not_joined hjoined
      exact ⟨hcurrent.trans hsame, by rw [hchanges, if_pos hsame]⟩
  · intro i t hi ht hjoined
    obtain ⟨hlapse, hbefore⟩ := hpoised.status_lapse hi ht
    have hdiffer : w.lapse.status ≠ w.status := fun heq => by
      have := congrArg Status.up heq
      simp [hlapse, hbefore, ClusterView.up_readiness, hjoined] at this
    have hpending : w.pending = some t := ClusterWatch.pending_eq_some.mpr ⟨i, hi, ht⟩
    cases hend with
    | waiting hsource hcurrent hchanges htime =>
      refine ⟨Or.inl ⟨hcurrent, hchanges⟩, fun hrun hsettled hle => ?_⟩
      have := hsettled t (by rw [due_of_closed hsource hclosed, if_pos hrun, hpending])
      omega
    | lapsed d hd hle _ hcurrent hchanges =>
      obtain rfl : t = d := Option.some.inj (hpending.symm.trans hd)
      rw [if_neg hdiffer, hlapse] at hchanges
      rw [hlapse] at hcurrent
      exact ⟨Or.inr ⟨hle, hcurrent, hchanges⟩, fun _ _ _ => hcurrent⟩

/-- The feed of a lonely node closes, and the node is isolated all the same when the debounce has passed. -/
theorem isolated_after_close :
    let feed := (Feed.standalone "a").publish (.unreachable "b")
    let x : Scene := ⟨0, feed, .clusterReadiness "a" feed (.seconds 1) 0, []⟩
    ∃ y w z, x.run? [.meet 0 .close, .act] = some y ∧ y.probe.source = .cluster w ∧ w.feedOpen = false ∧
      y.run? [.mail 500 .query, .act] = some z ∧
      z.changes = [(1000, w.view.readiness (.seconds 1) true)] := by
  intro feed x
  have hy : x.run? [.meet 0 .close, .act] = some _ := rfl
  obtain ⟨-, hlater⟩ := frozen_but_isolation (.readiness ..) hy rfl
  obtain ⟨-, htimer⟩ := hlater [.mail 500 .query, .act] _ rfl rfl
  obtain ⟨hchange, -⟩ := htimer _ 1000 rfl rfl (by decide)
  refine ⟨_, _, _, hy, rfl, rfl, rfl, ?_⟩
  obtain ⟨hcurrent, -⟩ | ⟨-, -, hchanges⟩ := hchange
  · exact absurd hcurrent (by decide)
  · exact hchanges

/-- The status of a probe that has seen its feed close may still change. -/
theorem not_frozen : ¬∀ (x y z : Scene) (ms ms' : List Move) (w : ClusterWatch), x.Fresh → x.run? ms = some y →
    y.probe.source = .cluster w → w.feedOpen = false → y.run? ms' = some z →
    z.probe.hub.current = y.probe.hub.current := by
  intro h
  let feed := (Feed.standalone "a").publish (.unreachable "b")
  let x : Scene := ⟨0, feed, .clusterReadiness "a" feed (.seconds 1) 0, []⟩
  have hy : x.run? [.meet 0 .close, .act] = some _ := rfl
  exact absurd (h _ _ _ _ [.act] _ (.readiness ..) hy rfl rfl rfl) (by decide)

end Scene
end HealthSignal
