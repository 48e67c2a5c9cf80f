import HealthSignal.Proofs.Probe.Isolation
import HealthSignal.Proofs.Timeline

/-! Runs of a readiness probe whose feed stays open. Its status follows from the view and from how long the
view has been lonely. -/
namespace HealthSignal
open Timeline

namespace ClusterWatch
variable {w : ClusterWatch} {feed : Feed}

theorem receive_eq (hopen : feed.closed = false) (hready : w.ready feed = true) (now : Nat) :
    ∃ v r, w.receive now feed = reconcile { w with view := v, receiver := r } now := by
  have hnext : ¬feed.sent ≤ w.receiver.next := by
    simp [ready, hopen] at hready
    omega
  unfold receive Feed.receive
  rw [if_neg hnext]
  by_cases hlag : feed.recent.length < feed.sent - w.receiver.next
  · rw [if_pos hlag]
    exact ⟨_, _, rfl⟩
  · have hindex : feed.sent - w.receiver.next - 1 < feed.recent.length := by omega
    rw [if_neg hlag, List.getElem?_eq_getElem hindex]
    exact ⟨_, _, rfl⟩

end ClusterWatch

namespace Probe

/-- The view after the message that a probe handles when it acts, if it handles one. -/
def handled (p : Probe) (feed : Feed) (now : Nat) : Views :=
  match p.source with
  | .cluster w => if w.ready feed then [(now, (w.act now feed).view)] else []
  | _ => []

inductive Watching (node : String) (debounce : Duration) (start : Nat) :
    Nat → Views → Feed → Probe → Prop
  | start {feed : Feed} : feed.closed = false →
    Watching node debounce start start [(start, .new node feed.snapshot)] feed
      (clusterReadiness node feed debounce start)
  | pass {now later : Nat} {views : Views} {feed : Feed} {p : Probe} :
    Watching node debounce start now views feed p → now ≤ later →
    (∀ d, p.due feed = some d → later ≤ max d now) →
    Watching node debounce start later views feed p
  | publish {now : Nat} {views : Views} {feed : Feed} {p : Probe} (e : MemberEvent) :
    Watching node debounce start now views feed p →
    Watching node debounce start now views (feed.publish e) p
  | mail {now : Nat} {views : Views} {feed : Feed} {p q : Probe} (m : Mail) :
    Watching node debounce start now views feed p → p.command m.deliver = .ok q →
    Watching node debounce start now views feed q
  | act {now d : Nat} {views : Views} {feed : Feed} {p : Probe} :
    Watching node debounce start now views feed p → p.due feed = some d →
    Watching node debounce start (max d now) (p.handled feed (max d now) ++ views) feed
      (p.act feed (max d now))
  | stop {now : Nat} {views : Views} {feed : Feed} {p : Probe} :
    Watching node debounce start now views feed p → Watching node debounce start now views feed p.stop

structure Shows (debounce : Duration) (now : Nat) (views : Views) (feed : Feed) (p : Probe)
    (w : ClusterWatch) (i : Isolation) : Prop where
  source : p.source = .cluster w
  isolation : w.isolation = some i
  debounce_eq : i.debounce = debounce
  current : p.hub.current = w.status
  view : views.head?.map (·.2) = some w.view
  sorted : views.Pairwise fun x y => y.1 ≤ x.1
  times : ∀ x ∈ views, x.1 ≤ now
  tells : i.Tells views now
  feedOpen : feed.closed = false

variable {node : String} {debounce : Duration} {start now : Nat} {views : Views} {feed : Feed}
  {p q : Probe} {w : ClusterWatch} {i : Isolation}

theorem due_cluster (h : p.source = .cluster w) (feed : Feed) :
    p.due feed = if p.running then w.due feed else none := by
  unfold due
  rw [h]
  cases p.running <;> rfl

theorem act_cluster (h : p.source = .cluster w) (feed : Feed) (now : Nat) :
    p.act feed now = follow { p with source := .cluster (w.act now feed) } (w.act now feed).status := by
  unfold act
  rw [h]

theorem Shows.act_source (h : Shows debounce now views feed p w i) (later : Nat) :
    (p.act feed later).source = .cluster (w.act later feed) := by
  rw [act_cluster h.source, source_follow]

theorem Shows.act_current (h : Shows debounce now views feed p w i) (later : Nat) :
    (p.act feed later).hub.current = (w.act later feed).status := by
  rw [act_cluster h.source, current_follow_some]

theorem Shows.pass (h : Shows debounce now views feed p w i) {later : Nat} (hle : now ≤ later) :
    Shows debounce later views feed p w i :=
  { h with times := fun x hx => Nat.le_trans (h.times x hx) hle, tells := h.tells.pass hle }

theorem Shows.receive (h : Shows debounce now views feed p w i) (hready : w.ready feed = true) :
    Shows debounce now (p.handled feed now ++ views) feed (p.act feed now) (w.act now feed)
      (i.reconcile now (w.act now feed).view) := by
  obtain ⟨v, r, hreceive⟩ := w.receive_eq h.feedOpen hready now
  have hact : w.act now feed = .reconcile { w with view := v, receiver := r } now := by
    rw [ClusterWatch.act, if_pos hready, hreceive]
  have hhandled : p.handled feed now = [(now, v)] := by
    simp [handled, h.source, hready, hact, ClusterWatch.reconcile]
  rw [hhandled]
  exact {
    source := h.act_source now
    isolation := by simp [hact, ClusterWatch.reconcile, h.isolation]
    debounce_eq := by simp [h.debounce_eq]
    current := h.act_current now
    view := by simp [hact, ClusterWatch.reconcile]
    sorted := List.pairwise_cons.mpr ⟨h.times, h.sorted⟩
    times := List.forall_mem_cons.mpr ⟨Nat.le_refl now, h.times⟩
    tells := by
      rw [show (w.act now feed).view = v by rw [hact]; rfl]
      exact h.tells.reconcile v
    feedOpen := h.feedOpen }

theorem Shows.elapse (h : Shows debounce now views feed p w i) (hready : w.ready feed = false)
    {t : Nat} (ht : i.timer = some t) (hle : t ≤ now) :
    Shows debounce now (p.handled feed now ++ views) feed (p.act feed now) (w.act now feed)
      (i.elapse w.view) := by
  have hact : w.act now feed = { w with isolation := some (i.elapse w.view) } := by
    rw [ClusterWatch.act, hready, h.isolation]
    rfl
  have hhandled : p.handled feed now = [] := by simp [handled, h.source, hready]
  have halone : w.view.alone = true := by
    rw [← Views.isSome_aloneSince h.view]
    exact h.tells.set_iff.2.mp (Or.inl (by rw [ht]; rfl))
  rw [hhandled]
  exact {
    source := h.act_source now
    isolation := by rw [hact]
    debounce_eq := h.debounce_eq
    current := h.act_current now
    view := by simp [hact, h.view]
    sorted := h.sorted
    times := h.times
    tells := h.tells.elapse ht hle halone
    feedOpen := h.feedOpen }

theorem Shows.initial (hopen : feed.closed = false) (node : String) (debounce : Duration)
    (now : Nat) : ∃ w i, Shows debounce now [(now, .new node feed.snapshot)] feed
      (clusterReadiness node feed debounce now) w i := by
  refine ⟨ClusterWatch.start feed node (some debounce) now,
    (Isolation.new debounce).reconcile now (.new node feed.snapshot), ?_⟩
  exact {
    source := rfl
    isolation := rfl
    debounce_eq := by simp [Isolation.new]
    current := rfl
    view := rfl
    sorted := List.pairwise_singleton _ _
    times := by simp
    tells := (Isolation.Tells.new debounce now).reconcile _
    feedOpen := hopen }

theorem Watching.shows (h : Watching node debounce start now views feed p) :
    ∃ w i, Shows debounce now views feed p w i := by
  induction h with
  | start hopen => exact Shows.initial hopen ..
  | pass _ hle _ ih =>
    obtain ⟨w, i, ih⟩ := ih
    exact ⟨w, i, ih.pass hle⟩
  | publish e _ ih =>
    obtain ⟨w, i, ih⟩ := ih
    exact ⟨w, i, { ih with }⟩
  | mail m _ hm ih =>
    obtain ⟨w, i, ih⟩ := ih
    obtain ⟨-, rfl⟩ := command_eq_ok hm
    exact ⟨w, i, { ih with current := by simp [ih.current] }⟩
  | @act now d views feed p _ hd ih =>
    obtain ⟨w, i, ih⟩ := ih
    have hlater := ih.pass (Nat.le_max_right d now)
    have hdue : w.due feed = some d := by
      rw [due_cluster ih.source] at hd
      split at hd
      · exact hd
      · simp at hd
    cases hready : w.ready feed with
    | true => exact ⟨_, _, hlater.receive hready⟩
    | false =>
      have htimer : i.timer = some d := by simpa [ClusterWatch.due, hready, ih.isolation] using hdue
      exact ⟨_, _, hlater.elapse hready htimer (Nat.le_max_left d now)⟩
  | stop _ ih =>
    obtain ⟨w, i, ih⟩ := ih
    exact ⟨w, i, { ih with source := by simp [Probe.stop, ih.source] }⟩

/-- A message that leaves the view lonely leaves the timer as it is. -/
theorem Shows.isolation_act (h : Shows debounce now views feed p w i) (t : Nat)
    (hready : w.ready feed = true) (hw : w.view.alone = true)
    (hw' : (w.act t feed).view.alone = true) : (w.act t feed).isolation = w.isolation := by
  obtain ⟨v, r, hreceive⟩ := w.receive_eq h.feedOpen hready t
  have hact : w.act t feed = .reconcile { w with view := v, receiver := r } t := by
    rw [ClusterWatch.act, if_pos hready, hreceive]
  have hv : v.alone = true := by rwa [hact] at hw'
  have hset := h.tells.set_iff.2.mpr (by rw [Views.isSome_aloneSince h.view, hw])
  have hkeep : i.reconcile t v = i := Isolation.reconcile_of_set hset hv t
  rw [hact]
  simp [ClusterWatch.reconcile, h.isolation, hkeep]

/-- Once nothing is due, a node is isolated exactly if its view has been lonely for the debounce. -/
theorem Shows.isolated_iff (h : Shows debounce now views feed p w i) (hrun : p.running = true)
    (hsettled : Settled (due feed) now p) :
    i.isolated = true ↔ views.LongAlone debounce.timer now := by
  rw [Views.longAlone_iff h.sorted]
  have htells := h.tells
  unfold Isolation.Tells at htells
  cases hs : views.aloneSince with
  | none => simp_all
  | some a =>
    simp only [hs, h.debounce_eq] at htells
    obtain ⟨ht, hi⟩ | ⟨ht, hi, ha⟩ := htells
    · have hready : w.ready feed = false := by
        rw [Bool.eq_false_iff]
        intro hready
        have := hsettled 0 (by rw [due_cluster h.source, hrun]; simp [ClusterWatch.due, hready])
        omega
      have := hsettled (a + debounce.timer)
        (by rw [due_cluster h.source, hrun]; simp [ClusterWatch.due, hready, h.isolation, ht])
      simp [hi]
      omega
    · simp [hi, ha]

/-- Once nothing is due, a readiness probe is up exactly if its view has joined and has not been lonely for
the debounce; otherwise it shows which of the two holds. The timer and `isolated` are never both set, one
of them is set exactly if the view is lonely, and only then to new values. -/
theorem readiness_iff (h : Watching node debounce start now views feed p) :
    ∃ w i, p.source = .cluster w ∧ w.isolation = some i ∧ views.head?.map (·.2) = some w.view ∧
      ¬(i.timer.isSome = true ∧ i.isolated = true) ∧
      (i.timer.isSome = true ∨ i.isolated = true ↔ w.view.alone = true) ∧
      (∀ t, w.ready feed = true → w.view.alone = true → (w.act t feed).view.alone = true →
        (w.act t feed).isolation = w.isolation) ∧
      (p.running = true → Settled (due feed) now p →
        (p.hub.current.up = true ↔ w.view.joined = true ∧ ¬views.LongAlone debounce.timer now) ∧
        (w.view.joined = true → views.LongAlone debounce.timer now →
          p.hub.current = w.view.readiness debounce true) ∧
        (w.view.joined = false → p.hub.current = w.view.liveness)) := by
  obtain ⟨w, i, hs⟩ := h.shows
  obtain ⟨hone, hset⟩ := hs.tells.set_iff
  rw [Views.isSome_aloneSince hs.view] at hset
  refine ⟨w, i, hs.source, hs.isolation, hs.view, hone, hset, fun t => hs.isolation_act t,
    fun hrun hsettled => ?_⟩
  have hcurrent : p.hub.current = w.view.readiness debounce i.isolated := by
    rw [hs.current, ClusterWatch.status, hs.isolation, ← hs.debounce_eq]
  rw [← hs.isolated_iff hrun hsettled, hcurrent]
  refine ⟨?_, fun _ hi => by rw [hi], fun hj => ClusterView.readiness_of_not_joined hj ..⟩
  rw [ClusterView.up_readiness]
  simp

/-- A node whose only peer cannot be reached is down after the debounce, having been lonely for as long. -/
theorem longAlone_of_down :
    let feed := (Feed.standalone "a").publish (.unreachable "b")
    ∃ views p, Watching "a" (.seconds 1) 0 1000 views feed p ∧ p.hub.current.up = false ∧
      views.LongAlone (Duration.seconds 1).timer 1000 := by
  intro feed
  have hstart : Watching "a" (.seconds 1) 0 0 _ feed _ := .start rfl
  have hpass : Watching _ _ 0 1000 _ _ _ := hstart.pass (by decide) fun d hd => by
    obtain rfl : 1000 = d := Option.some.inj hd
    decide
  have hact := hpass.act (d := 1000) rfl
  obtain ⟨w, i, hw, -, -, -, -, -, hstatus⟩ := readiness_iff hact
  obtain rfl := Source.cluster.inj hw
  have hup := (hstatus rfl fun t ht => by cases ht).1
  refine ⟨_, _, hact, by decide, Classical.byContradiction fun hlong => ?_⟩
  exact absurd (hup.mpr ⟨by decide, hlong⟩) (by decide)

/-- A debounce beyond thirty years is cut short: the node is taken for isolated before it has passed. -/
theorem not_debounce_millis : ¬∀ (node : String) (debounce : Duration) (start now : Nat) (views : Views)
    (feed : Feed) (p : Probe), Watching node debounce start now views feed p → p.running = true →
    Settled (due feed) now p → ∀ w, p.source = .cluster w →
    (p.hub.current.up = true ↔ w.view.joined = true ∧ ¬views.LongAlone debounce.millis now) := by
  intro h
  have hstart : Watching "a" ⟨1000000000000⟩ 0 0 _
    ((Feed.standalone "a").publish (.unreachable "b")) _ := .start rfl
  have hpass : Watching _ _ 0 946080000000 _ _ _ := hstart.pass (by decide) fun d hd => by
    obtain rfl : 946080000000 = d := Option.some.inj hd
    decide
  have hact := hpass.act (d := 946080000000) rfl
  have hup := h _ _ _ _ _ _ _ hact rfl (fun t ht => by cases ht) _ rfl
  refine absurd (hup.mpr ⟨by decide, ?_⟩) (by decide)
  rintro ⟨newer, a, v, older, -, -, -, ha⟩
  have ha : a + 1000000000000 ≤ 946080000000 := ha
  omega

end Probe
end HealthSignal
