import HealthSignal.Membership.View
import HealthSignal.Proofs.Membership.Feed

/-! The views that a node can have of its cluster, however it learned of the events: from a snapshot, event by
event, or from a later snapshot after it missed some. -/
namespace HealthSignal

namespace NodeSet

theorem mem_insert {node n : String} {s : NodeSet} : n ∈ s.insert node ↔ n = node ∨ n ∈ s := by
  induction s with
  | nil => simp [insert]
  | cons m rest ih =>
    unfold insert
    split
    · next heq => simp [heq]
    · split
      · simp
      · simp only [List.mem_cons, ih]
        grind

theorem mem_remove {node n : String} {s : NodeSet} : n ∈ s.remove node ↔ n ∈ s ∧ n ≠ node := by
  simp [remove]

end NodeSet

theorem Snapshot.mem_members_apply {s : Snapshot} {e : MemberEvent} {n : String} :
    n ∈ (s.apply e).members ↔ e = .up n ∨ e = .unreachable n ∨ n ∈ s.members ∧ e ≠ .removed n := by
  cases e with
  | up m => simp [apply, NodeSet.mem_insert, eq_comm]
  | removed m => simp [apply, NodeSet.mem_remove, eq_comm]
  | unreachable m => simp [apply, NodeSet.mem_insert, eq_comm]
  | reachable m => simp [apply]

theorem Snapshot.mem_unreachable_apply {s : Snapshot} {e : MemberEvent} {n : String} :
    n ∈ (s.apply e).unreachable ↔
      e = .unreachable n ∨ n ∈ s.unreachable ∧ e ≠ .removed n ∧ e ≠ .reachable n := by
  cases e with
  | up m => simp [apply]
  | removed m => simp [apply, NodeSet.mem_remove, eq_comm]
  | unreachable m => simp [apply, NodeSet.mem_insert, eq_comm]
  | reachable m => simp [apply, NodeSet.mem_remove, eq_comm]

/-- Since the node was removed for the last time, it has not come up. -/
def Departed (node : String) (events : List MemberEvent) : Prop :=
  ∃ before after, events = before ++ .removed node :: after ∧ .removed node ∉ after ∧
    .up node ∉ after

/-- Since the node was removed for the last time, it has not come up but was reported unreachable. -/
def Revenant (node : String) (events : List MemberEvent) : Prop :=
  ∃ before after, events = before ++ .removed node :: after ∧ .removed node ∉ after ∧
    .up node ∉ after ∧ .unreachable node ∈ after

section
variable {node : String} {events : List MemberEvent}

theorem departed_removed : Departed node (events ++ [.removed node]) :=
  ⟨events, [], rfl, by simp, by simp⟩

theorem Departed.concat (h : Departed node events) {e : MemberEvent} (he : e ≠ .up node) :
    Departed node (events ++ [e]) := by
  by_cases hremoved : e = .removed node
  · exact hremoved ▸ departed_removed
  · obtain ⟨before, after, rfl, hr, hu⟩ := h
    exact ⟨before, after ++ [e], by simp, by simp [hr, Ne.symm hremoved], by simp [hu, he.symm]⟩

/-- A node that is a member or has departed does one of the two ever after. -/
theorem member_or_departed (later : List MemberEvent)
    (h : node ∈ (Snapshot.ofEvents events).members ∨ Departed node events) :
    node ∈ (Snapshot.ofEvents (events ++ later)).members ∨ Departed node (events ++ later) := by
  induction later generalizing events with
  | nil => simpa using h
  | cons e later ih =>
    rw [List.append_cons]
    apply ih
    rw [Snapshot.ofEvents_concat, Snapshot.mem_members_apply]
    by_cases hremoved : e = .removed node
    · exact Or.inr (hremoved ▸ departed_removed)
    · by_cases hup : e = .up node
      · exact Or.inl (Or.inl hup)
      · exact h.imp (fun hm => Or.inr (Or.inr ⟨hm, hremoved⟩)) (·.concat hup)

theorem notMem_of_silent {after : List MemberEvent} {s : Snapshot} (hup : .up node ∉ after)
    (hunreachable : .unreachable node ∉ after) (hs : node ∉ s.members) :
    node ∉ (after.foldl Snapshot.apply s).members := by
  induction after generalizing s with
  | nil => exact hs
  | cons e after ih =>
    simp only [List.mem_cons, not_or] at hup hunreachable
    refine ih hup.2 hunreachable.2 ?_
    rw [Snapshot.mem_members_apply]
    simp [hs, Ne.symm hup.1, Ne.symm hunreachable.1]

theorem mem_of_unreachable {after : List MemberEvent} {s : Snapshot}
    (hremoved : .removed node ∉ after) (hs : node ∈ s.members ∨ .unreachable node ∈ after) :
    node ∈ (after.foldl Snapshot.apply s).members := by
  induction after generalizing s with
  | nil => simpa using hs
  | cons e after ih =>
    simp only [List.mem_cons, not_or] at hremoved
    refine ih hremoved.2 ?_
    rw [Snapshot.mem_members_apply]
    obtain hm | hu := hs
    · exact Or.inl (Or.inr (Or.inr ⟨hm, Ne.symm hremoved.1⟩))
    · obtain heq | hu := List.mem_cons.mp hu
      · exact Or.inl (Or.inr (Or.inl heq.symm))
      · exact Or.inr hu

theorem Departed.revenant (h : Departed node events)
    (hm : node ∈ (Snapshot.ofEvents events).members) : Revenant node events := by
  obtain ⟨before, after, rfl, hr, hu⟩ := h
  refine ⟨before, after, rfl, hr, hu, Classical.byContradiction fun hunreachable => ?_⟩
  rw [Snapshot.ofEvents, List.foldl_append, List.foldl_cons] at hm
  refine notMem_of_silent hu hunreachable ?_ hm
  simp [Snapshot.mem_members_apply]

theorem Revenant.mem_members (h : Revenant node events) :
    node ∈ (Snapshot.ofEvents events).members := by
  obtain ⟨before, after, rfl, hr, -, hu⟩ := h
  rw [Snapshot.ofEvents, List.foldl_append, List.foldl_cons]
  exact mem_of_unreachable hr (Or.inr hu)

end

namespace ClusterView
variable {node : String} {events : List MemberEvent} {v w : ClusterView}

inductive Consumes (node : String) : List MemberEvent → ClusterView → Prop
  | new (events : List MemberEvent) : Consumes node events (new node (.ofEvents events))
  | apply {events : List MemberEvent} {v : ClusterView} (e : MemberEvent) :
    Consumes node events v → Consumes node (events ++ [e]) (v.apply e)
  | resync {events : List MemberEvent} {v : ClusterView} (missed : List MemberEvent) :
    Consumes node events v →
    Consumes node (events ++ missed) (v.resync (.ofEvents (events ++ missed)))

namespace Consumes

theorem node_eq (h : Consumes node events v) : v.node = node := by
  induction h with
  | new => rfl
  | apply _ _ ih => exact ih
  | resync _ _ ih => exact ih

theorem snapshot (h : Consumes node events v) : v.snapshot = .ofEvents events := by
  induction h with
  | new => rfl
  | apply e _ ih =>
    rw [Snapshot.ofEvents_concat, ← ih]
    rfl
  | resync => rfl

theorem departed (h : Consumes node events v) (hr : v.removed = true) : Departed node events := by
  induction h with
  | new => simp [ClusterView.new] at hr
  | @apply events v e h ih =>
    by_cases hremoved : e = .removed node
    · exact hremoved ▸ departed_removed
    · by_cases hup : e = .up node
      · simp [ClusterView.apply, hup, h.node_eq] at hr
      · refine (ih ?_).concat hup
        cases e <;> simp_all [ClusterView.apply, h.node_eq]
  | @resync events v missed h ih =>
    simp only [ClusterView.resync, h.node_eq, Bool.and_eq_true, Bool.not_eq_true',
      Bool.or_eq_true, List.contains_eq_mem, decide_eq_false_iff_not] at hr
    obtain ⟨hm, hv⟩ := hr
    refine (member_or_departed missed ?_).resolve_left hm
    obtain hv | hv := hv
    · exact Or.inr (ih hv)
    · refine Or.inl ?_
      simp [joined, h.node_eq, h.snapshot] at hv
      exact hv.2

theorem alone_eq (hv : Consumes node events v) (hw : Consumes node events w) :
    v.alone = w.alone := by
  simp [alone, others, hv.node_eq, hw.node_eq, hv.snapshot, hw.snapshot]

/-- A view has its node joined if the node is a member, unless it came back without coming up. -/
theorem joined_eq (h : Consumes node events v) (hnot : ¬Revenant node events) :
    v.joined = (Snapshot.ofEvents events).members.contains node := by
  rw [joined, h.node_eq, h.snapshot]
  cases hr : v.removed with
  | false => rfl
  | true =>
    have hm : node ∉ (Snapshot.ofEvents events).members := fun hm => hnot ((h.departed hr).revenant hm)
    simp [hm]

theorem foldl (h : Consumes node events v) (later : List MemberEvent) :
    Consumes node (events ++ later) (later.foldl ClusterView.apply v) := by
  induction later generalizing events v with
  | nil => simpa using h
  | cons e later ih =>
    rw [List.append_cons]
    exact ih (h.apply e)

end Consumes

theorem removed_foldl {after : List MemberEvent} (hup : .up v.node ∉ after) (hr : v.removed = true) :
    (after.foldl apply v).removed = true := by
  induction after generalizing v with
  | nil => exact hr
  | cons e after ih =>
    simp only [List.mem_cons, not_or] at hup
    refine ih hup.2 ?_
    cases e <;> simp_all [apply]
    exact fun heq => absurd heq.symm hup.1

/-- A node that came back without coming up has not joined for a view that took in event by event. -/
theorem exists_not_joined (h : Revenant node events) : ∃ v, Consumes node events v ∧ v.joined = false := by
  obtain ⟨before, after, rfl, -, hu, -⟩ := h
  have hbefore : Consumes node before (new node (.ofEvents before)) := .new before
  have hafter := (hbefore.apply (.removed node)).foldl after
  rw [← List.append_cons] at hafter
  refine ⟨_, hafter, ?_⟩
  have hr := removed_foldl (v := (new node (.ofEvents before)).apply (.removed node)) hu
    (by simp [apply, new])
  rw [joined, hr]
  rfl

/-- Views of one node that took in the same events agree on whether it has joined exactly if the node did
not come back without coming up. -/
theorem joined_agree_iff : (∀ v w, Consumes node events v → Consumes node events w → v.joined = w.joined) ↔
    ¬Revenant node events := by
  constructor
  · intro h hrev
    obtain ⟨v, hv, hj⟩ := exists_not_joined hrev
    have hfresh := h _ _ hv (.new events)
    rw [hj] at hfresh
    simp [joined, new, hrev.mem_members] at hfresh
  · intro h v w hv hw
    rw [hv.joined_eq h, hw.joined_eq h]

end ClusterView
end HealthSignal
