import HealthSignal.Proofs.Membership.View
import HealthSignal.Proofs.Probe.Readiness

/-! Any number of cluster probes on one feed, which is published on and read in any order. No probe loses an
update, and those of one node agree unless the node came back without coming up. -/
namespace HealthSignal

namespace ClusterWatch
variable {w : ClusterWatch} {feed : Feed} {events : List MemberEvent}

/-- The view has taken in what the receiver got or skipped; the feed was seen to close at its end only. -/
structure Follows (w : ClusterWatch) (events : List MemberEvent) (feed : Feed) : Prop where
  next_le : w.receiver.next ≤ events.length
  consumes : w.view.Consumes w.view.node (events.take w.receiver.next)
  ended : w.feedOpen = false → feed.closed = true ∧ w.receiver.next = events.length

theorem Follows.start (h : feed.Keeps events) (node : String) (debounce : Option Duration) (now : Nat) :
    (start feed node debounce now).Follows events feed where
  next_le := Nat.le_of_eq h.sent
  consumes := by
    have htake : events.take feed.sent = events := by rw [h.sent, List.take_length]
    change ClusterView.Consumes node (events.take feed.sent) (.new node feed.snapshot)
    rw [htake, h.snapshot]
    exact .new events
  ended := fun hopen => by simp [ClusterWatch.start, reconcile] at hopen

theorem Follows.publish (h : w.Follows events feed) (hopen : feed.closed = false) (e : MemberEvent) :
    w.Follows (events ++ [e]) (feed.publish e) where
  next_le := by simpa using Nat.le_succ_of_le h.next_le
  consumes := by
    rw [List.take_append_of_le_length h.next_le]
    exact h.consumes
  ended := fun hw => absurd (h.ended hw).1 (by simp [hopen])

theorem Follows.close (h : w.Follows events feed) : w.Follows events feed.close :=
  { h with ended := fun hw => ⟨rfl, (h.ended hw).2⟩ }

theorem receive_of_overrun (h : feed.Overrun w.receiver) (now : Nat) :
    w.receive now feed =
      reconcile { w with view := w.view.resync feed.snapshot, receiver := feed.subscribe } now := by
  obtain ⟨missed, r, hr⟩ := Feed.receive_of_overrun h
  rw [receive, hr]

theorem receive_of_event {e : MemberEvent} {r : Receiver}
    (h : feed.receive w.receiver = (.event e, r)) (now : Nat) :
    w.receive now feed = reconcile { w with view := w.view.apply e, receiver := r } now := by
  rw [receive, h]

theorem Follows.receive (h : w.Follows events feed) (hk : feed.Keeps events) (now : Nat) :
    (w.receive now feed).Follows events feed := by
  by_cases hle : feed.sent ≤ w.receiver.next
  · have hnext : w.receiver.next = events.length := Nat.le_antisymm h.next_le (hk.sent ▸ hle)
    rw [ClusterWatch.receive, Feed.receive_of_le hle]
    cases hclosed : feed.closed with
    | false => exact h
    | true => exact { h with ended := fun _ => ⟨hclosed, hnext⟩ }
  · have hopen : w.feedOpen = true := by
      rw [← Bool.not_eq_false]
      intro hw
      have := (h.ended hw).2
      have := hk.sent
      omega
    by_cases hover : feed.Overrun w.receiver
    · rw [receive_of_overrun hover]
      have hresync := h.consumes.resync (events.drop w.receiver.next)
      rw [List.take_append_drop, ← hk.snapshot] at hresync
      refine ⟨Nat.le_of_eq hk.sent, ?_, fun hw => by simp [reconcile, hopen] at hw⟩
      have htake : events.take feed.sent = events := by rw [hk.sent, List.take_length]
      change ClusterView.Consumes w.view.node (events.take feed.sent) (w.view.resync feed.snapshot)
      rwa [htake]
    · obtain ⟨e, he, hr⟩ := hk.receive (by omega) hover
      rw [receive_of_event hr]
      refine ⟨?_, ?_, fun hw => by simp [reconcile, hopen] at hw⟩
      · exact (List.getElem?_eq_some_iff.mp he).1
      · have htake : events.take (w.receiver.next + 1) = events.take w.receiver.next ++ [e] := by
          rw [List.take_add_one, he]
          rfl
        change ClusterView.Consumes w.view.node (events.take (w.receiver.next + 1)) (w.view.apply e)
        rw [htake]
        exact h.consumes.apply e

theorem Follows.act (h : w.Follows events feed) (hk : feed.Keeps events) (now : Nat) :
    (w.act now feed).Follows events feed := by
  unfold ClusterWatch.act
  split
  · exact h.receive hk now
  · exact ⟨h.next_le, h.consumes, h.ended⟩

theorem Follows.snapshot (h : w.Follows events feed) :
    w.view.snapshot = .ofEvents (events.take w.receiver.next) := h.consumes.snapshot

theorem Follows.overrun_or (h : w.Follows events feed) (hk : feed.Keeps events) :
    feed.Overrun w.receiver ∨
      (feed.pending w.receiver).foldl Snapshot.apply w.view.snapshot = feed.snapshot := by
  by_cases hover : feed.Overrun w.receiver
  · exact Or.inl hover
  · refine Or.inr ?_
    rw [hk.pending hover, h.snapshot, hk.snapshot, Snapshot.ofEvents, Snapshot.ofEvents,
      ← List.foldl_append, List.take_append_drop]

def CaughtUp (w : ClusterWatch) (feed : Feed) : Prop :=
  (feed.receive w.receiver).1 = .empty ∨ (feed.receive w.receiver).1 = .closed

instance : Decidable (w.CaughtUp feed) := inferInstanceAs (Decidable (_ ∨ _))

theorem Follows.next_eq (h : w.Follows events feed) (hk : feed.Keeps events) (hc : w.CaughtUp feed) :
    w.receiver.next = events.length := by
  refine Nat.le_antisymm h.next_le ?_
  rw [← hk.sent]
  refine Nat.le_of_not_lt fun hlt => ?_
  by_cases hover : feed.Overrun w.receiver
  · obtain ⟨missed, r, hr⟩ := Feed.receive_of_overrun hover
    simp [CaughtUp, hr] at hc
  · obtain ⟨e, -, hr⟩ := hk.receive hlt hover
    simp [CaughtUp, hr] at hc

theorem Follows.caughtUp (h : w.Follows events feed) (hk : feed.Keeps events) (hc : w.CaughtUp feed) :
    w.view.Consumes w.view.node events := by
  have hconsumes := h.consumes
  rwa [h.next_eq hk hc, List.take_length] at hconsumes

end ClusterWatch

open Probe

inductive Audience (capacity : Nat) : List MemberEvent → Feed → List Probe → Prop
  | new (feed : Feed) : Feed.new capacity = .ok feed → Audience capacity [] feed []
  | publish {events : List MemberEvent} {feed : Feed} {probes : List Probe} (e : MemberEvent) :
    Audience capacity events feed probes → feed.closed = false →
    Audience capacity (events ++ [e]) (feed.publish e) probes
  | close {events : List MemberEvent} {feed : Feed} {probes : List Probe} :
    Audience capacity events feed probes → Audience capacity events feed.close probes
  | liveness {events : List MemberEvent} {feed : Feed} {probes : List Probe} (node : String)
    (now : Nat) : Audience capacity events feed probes → feed.closed = false →
    Audience capacity events feed (probes ++ [clusterLiveness node feed now])
  | readiness {events : List MemberEvent} {feed : Feed} {probes : List Probe} (node : String)
    (debounce : Duration) (now : Nat) : Audience capacity events feed probes → feed.closed = false →
    Audience capacity events feed (probes ++ [clusterReadiness node feed debounce now])
  | act {events : List MemberEvent} {feed : Feed} {probes : List Probe} {i d now : Nat} {p : Probe} :
    Audience capacity events feed probes → probes[i]? = some p → p.due feed = some d → d ≤ now →
    Audience capacity events feed (probes.set i (p.act feed now))
  | mail {events : List MemberEvent} {feed : Feed} {probes : List Probe} {i : Nat} {p q : Probe}
    (m : Mail) : Audience capacity events feed probes → probes[i]? = some p →
    p.command m.deliver = .ok q → Audience capacity events feed (probes.set i q)
  | stop {events : List MemberEvent} {feed : Feed} {probes : List Probe} {i : Nat} {p : Probe} :
    Audience capacity events feed probes → probes[i]? = some p →
    Audience capacity events feed (probes.set i p.stop)

structure Probe.Attends (p : Probe) (events : List MemberEvent) (feed : Feed) (w : ClusterWatch) :
    Prop where
  source : p.source = .cluster w
  current : p.hub.current = w.status
  follows : w.Follows events feed

namespace Audience
variable {capacity : Nat} {events : List MemberEvent} {feed : Feed} {probes : List Probe} {p q : Probe}
  {v w : ClusterWatch}

theorem keeps (h : Audience capacity events feed probes) : feed.Keeps events := by
  induction h with
  | new _ h => exact (Feed.Keeps.new h).1
  | publish e _ _ ih => exact ih.publish e
  | close _ ih => exact ih.close
  | _ => assumption

theorem standalone (node : String) : Audience 64 [.up node] (.standalone node) [] :=
  (Audience.new _ rfl).publish (.up node) rfl

theorem forall_mem_concat {P : Probe → Prop} (h : ∀ p ∈ probes, P p) (hq : P q) :
    ∀ p ∈ probes ++ [q], P p := by
  intro p hp
  obtain hp | hp := List.mem_append.mp hp
  · exact h p hp
  · rwa [List.mem_singleton.mp hp]

theorem forall_mem_set {P : Probe → Prop} (h : ∀ p ∈ probes, P p) (i : Nat) (hq : P q) :
    ∀ p ∈ probes.set i q, P p := fun p hp =>
  (List.mem_or_eq_of_mem_set hp).elim (h p) (fun heq => heq ▸ hq)

theorem attends (h : Audience capacity events feed probes) :
    ∀ p ∈ probes, ∃ w, p.Attends events feed w := by
  induction h with
  | new => simp
  | publish e _ hopen ih =>
    intro p hp
    obtain ⟨w, hw⟩ := ih p hp
    exact ⟨w, { hw with follows := hw.follows.publish hopen e }⟩
  | close _ ih =>
    intro p hp
    obtain ⟨w, hw⟩ := ih p hp
    exact ⟨w, { hw with follows := hw.follows.close }⟩
  | liveness node now h _ ih => exact forall_mem_concat ih ⟨_, rfl, rfl, .start h.keeps ..⟩
  | readiness node debounce now h _ ih => exact forall_mem_concat ih ⟨_, rfl, rfl, .start h.keeps ..⟩
  | @act events feed probes i d now p h hp _ _ ih =>
    obtain ⟨w, hw⟩ := ih p (List.mem_of_getElem? hp)
    refine forall_mem_set ih i ⟨w.act now feed, ?_, ?_, hw.follows.act h.keeps now⟩
    · rw [act_cluster hw.source, source_follow]
    · rw [act_cluster hw.source, current_follow_some]
  | @mail events feed probes i p q m _ hp hm ih =>
    obtain ⟨w, hw⟩ := ih p (List.mem_of_getElem? hp)
    obtain ⟨-, rfl⟩ := command_eq_ok hm
    exact forall_mem_set ih i ⟨w, { hw with current := by simp [hw.current] }⟩
  | @stop events feed probes i p _ hp ih =>
    obtain ⟨w, hw⟩ := ih p (List.mem_of_getElem? hp)
    exact forall_mem_set ih i ⟨w, { hw with source := by simp [Probe.stop, hw.source] }⟩

/-- In every state that an audience can come to, a running probe has been overrun, and then it is told so
next and starts over from the snapshot of the feed, or the events that it has still to get lead from its own
snapshot to that of the feed. With nothing left to get, the two are the same. -/
theorem no_update_lost (h : Audience capacity events feed probes) (hp : p ∈ probes)
    (hrun : p.running = true) :
    feed.snapshot = .ofEvents events ∧
    ∃ w, p.source = .cluster w ∧
      ((∃ missed r, feed.receive w.receiver = (.lagged missed, r)) ∧ p.due feed = some 0 ∧
          (∀ now, ∃ w', (p.act feed now).source = .cluster w' ∧ w'.view.snapshot = feed.snapshot) ∨
        (feed.pending w.receiver).foldl Snapshot.apply w.view.snapshot = feed.snapshot) ∧
      (w.CaughtUp feed → w.view.snapshot = feed.snapshot) := by
  obtain ⟨w, hw⟩ := h.attends p hp
  refine ⟨h.keeps.snapshot, w, hw.source, ?_, fun hc => ?_⟩
  · refine (hw.follows.overrun_or h.keeps).imp_left fun hover => ?_
    have hlt : w.receiver.next < feed.sent := by
      unfold Feed.Overrun at hover
      omega
    have hready : w.ready feed = true := by
      have hopen : w.feedOpen = true := by
        rw [← Bool.not_eq_false]
        intro hopen
        have := (hw.follows.ended hopen).2
        have := h.keeps.sent
        omega
      simp [ClusterWatch.ready, hopen, hlt]
    refine ⟨Feed.receive_of_overrun hover, ?_, fun now => ⟨w.act now feed, ?_, ?_⟩⟩
    · rw [due_cluster hw.source, hrun]
      simp [ClusterWatch.due, hready]
    · rw [act_cluster hw.source, source_follow]
    · rw [ClusterWatch.act, if_pos hready, ClusterWatch.receive_of_overrun hover]
      rfl
  · rw [hw.follows.snapshot, hw.follows.next_eq h.keeps hc, List.take_length, h.keeps.snapshot]

theorem resync_of_burst :
    ∃ feed p, Audience 1 [.up "a", .removed "a", .up "b"] feed [p] ∧ p.due feed = some 0 ∧
      ∀ now, ∃ w, (p.act feed now).source = .cluster w ∧ w.view.snapshot = ⟨["b"], []⟩ := by
  have hstart : Audience 1 _ _ [_] :=
    ((Audience.new ⟨1, .empty, 0, [], false⟩ rfl).publish (.up "a") rfl).liveness "a" 0 rfl
  have hburst := (hstart.publish (.removed "a") rfl).publish (.up "b") rfl
  obtain ⟨hsnapshot, w, hw, hor, -⟩ := no_update_lost hburst List.mem_cons_self rfl
  obtain rfl := Source.cluster.inj hw
  obtain ⟨-, hdue, hact⟩ := hor.resolve_right (by decide)
  exact ⟨_, _, hburst, hdue, hact⟩

/-- Probes of one node that have caught up agree on whether it is alone, and so do all views that took in the
same events. On whether it has joined they agree exactly if it did not come back without coming up; then
liveness probes agree on whether they are up. -/
theorem probes_agree (h : Audience capacity events feed probes) (hp : p ∈ probes) (hq : q ∈ probes)
    (hv : p.source = .cluster v) (hw : q.source = .cluster w) (hnode : v.view.node = w.view.node)
    (hpc : v.CaughtUp feed) (hqc : w.CaughtUp feed) :
    v.view.Consumes v.view.node events ∧ w.view.Consumes v.view.node events ∧
    (∀ v' w', ClusterView.Consumes v.view.node events v' → ClusterView.Consumes v.view.node events w' →
      v'.alone = w'.alone) ∧
    ((∀ v' w', ClusterView.Consumes v.view.node events v' →
      ClusterView.Consumes v.view.node events w' → v'.joined = w'.joined) ↔
      ¬Revenant v.view.node events) ∧
    v.view.alone = w.view.alone ∧
    (¬Revenant v.view.node events → v.view.joined = w.view.joined ∧
      (v.isolation = none → w.isolation = none → p.hub.current.up = q.hub.current.up)) := by
  obtain ⟨v', hp'⟩ := h.attends p hp
  obtain rfl := Source.cluster.inj (hv.symm.trans hp'.source)
  obtain ⟨w', hq'⟩ := h.attends q hq
  obtain rfl := Source.cluster.inj (hw.symm.trans hq'.source)
  have hvall := hp'.follows.caughtUp h.keeps hpc
  have hwall := hq'.follows.caughtUp h.keeps hqc
  rw [← hnode] at hwall
  refine ⟨hvall, hwall, fun _ _ hv hw => hv.alone_eq hw, ClusterView.joined_agree_iff, hvall.alone_eq hwall,
    fun hnot => ?_⟩
  have hjoined := ClusterView.joined_agree_iff.mpr hnot _ _ hvall hwall
  refine ⟨hjoined, fun hvi hwi => ?_⟩
  rw [hp'.current, hq'.current, ClusterWatch.status, ClusterWatch.status, hvi, hwi]
  simp only [ClusterView.up_liveness, hjoined]

/-- A probe that missed a burst and one that started after it agree, though for different reasons. -/
theorem agree_after_burst :
    ∃ feed p q, Audience 1 [.up "a", .removed "a", .up "b"] feed [p, q] ∧
      p.hub.current.up = q.hub.current.up ∧ p.hub.current ≠ q.hub.current := by
  have hstart : Audience 1 _ _ [_] :=
    ((Audience.new ⟨1, .empty, 0, [], false⟩ rfl).publish (.up "a") rfl).liveness "a" 0 rfl
  have hburst := (hstart.publish (.removed "a") rfl).publish (.up "b") rfl
  have hboth := (hburst.act (i := 0) rfl rfl (Nat.le_refl 0)).liveness "a" 0 rfl
  have hnot : ¬Revenant "a" [.up "a", .removed "a", .up "b"] := by
    rintro ⟨before, after, heq, -, -, hmem⟩
    have hmem : MemberEvent.unreachable "a" ∈ [.up "a", .removed "a", .up "b"] := by
      rw [heq]
      simp [hmem]
    simp at hmem
  obtain ⟨-, -, -, -, -, hagree⟩ := probes_agree hboth List.mem_cons_self
    (List.mem_cons_of_mem _ List.mem_cons_self) rfl rfl rfl (by decide) (by decide)
  exact ⟨_, _, _, hboth, (hagree hnot).2 rfl rfl, by decide⟩

/-- A node that was removed and then reported unreachable is down for a probe that saw both happen, and up for
one that started after them. -/
theorem revenant_disagree :
    ∃ feed p q v w, Audience 16 [.up "a", .removed "a", .unreachable "a"] feed [p, q] ∧
      p.source = .cluster v ∧ q.source = .cluster w ∧ v.view.node = "a" ∧ w.view.node = "a" ∧
      v.isolation = none ∧ w.isolation = none ∧ v.CaughtUp feed ∧ w.CaughtUp feed ∧
      p.hub.current = .bad "node a was removed from the cluster" ∧
      q.hub.current = .good "node a is a cluster member" := by
  have hstart : Audience 16 _ _ [_] :=
    ((Audience.new ⟨16, .empty, 0, [], false⟩ rfl).publish (.up "a") rfl).liveness "a" 0 rfl
  have hremoved := (hstart.publish (.removed "a") rfl).act (i := 0) rfl rfl (Nat.le_refl 0)
  have hback := (hremoved.publish (.unreachable "a") rfl).act (i := 0) rfl rfl (Nat.le_refl 0)
  exact ⟨_, _, _, _, _, hback.liveness "a" 0 rfl, rfl, rfl, rfl, rfl, rfl, rfl, by decide, by decide,
    by decide, by decide⟩

end Audience
end HealthSignal
