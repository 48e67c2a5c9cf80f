import HealthSignal.Proofs.Membership.View
import Mathlib.Data.Finset.Basic

/-! The peers of a node, and when it has lost them all. A view looks only for a peer that can be reached. Since
nothing but a member is ever unreachable, whatever events come in whatever order, this compares two sets. -/
namespace HealthSignal

namespace Snapshot
variable {s : Snapshot} {node n x : String}

def peers (s : Snapshot) (node : String) : Finset String := s.members.toFinset.erase node

def lostPeers (s : Snapshot) (node : String) : Finset String := s.unreachable.toFinset.erase node

@[simp] theorem mem_peers : n ∈ s.peers node ↔ n ≠ node ∧ n ∈ s.members := by
  simp [peers]

@[simp] theorem mem_lostPeers : n ∈ s.lostPeers node ↔ n ≠ node ∧ n ∈ s.unreachable := by
  simp [lostPeers]

theorem peers_apply_removed : (s.apply (.removed x)).peers node = (s.peers node).erase x := by
  ext n
  simp only [mem_peers, mem_members_apply, Finset.mem_erase]
  grind

theorem peers_apply_up (h : x ≠ node) : (s.apply (.up x)).peers node = insert x (s.peers node) := by
  ext n
  simp only [mem_peers, mem_members_apply, Finset.mem_insert]
  grind

theorem lostPeers_apply_reachable :
    (s.apply (.reachable x)).lostPeers node = (s.lostPeers node).erase x := by
  ext n
  simp only [mem_lostPeers, mem_unreachable_apply, Finset.mem_erase]
  grind

theorem unreachable_subset_apply (h : s.unreachable ⊆ s.members) (e : MemberEvent) :
    (s.apply e).unreachable ⊆ (s.apply e).members := by
  intro n hn
  rw [mem_members_apply]
  obtain hlost | ⟨hn, hstays, -⟩ := mem_unreachable_apply.mp hn
  · exact Or.inr (Or.inl hlost)
  · exact Or.inr (Or.inr ⟨h hn, hstays⟩)

theorem unreachable_subset (events : List MemberEvent) :
    (ofEvents events).unreachable ⊆ (ofEvents events).members := by
  induction events using List.reverseRecOn with
  | nil => exact List.Subset.refl []
  | append_singleton events e ih =>
    rw [ofEvents_concat]
    exact unreachable_subset_apply ih e

theorem lostPeers_subset (h : s.unreachable ⊆ s.members) : s.lostPeers node ⊆ s.peers node := by
  intro n hn
  obtain ⟨hne, hn⟩ := mem_lostPeers.mp hn
  exact mem_peers.mpr ⟨hne, h hn⟩

end Snapshot

namespace ClusterView
open Snapshot
variable {node x : String} {events : List MemberEvent} {v : ClusterView}

theorem mem_others {n : String} : n ∈ v.others ↔ n ∈ v.snapshot.peers v.node := by
  simp [others, and_comm]

/-- What a view tests: it has peers, and each of them is among the lost ones. -/
theorem alone_iff_subset : v.alone = true ↔
    (v.snapshot.peers v.node).Nonempty ∧ v.snapshot.peers v.node ⊆ v.snapshot.lostPeers v.node := by
  have hsome : (!v.others.isEmpty) = true ↔ (v.snapshot.peers v.node).Nonempty := by
    rw [Bool.not_eq_true', List.isEmpty_eq_false_iff_exists_mem]
    simp only [mem_others, Finset.Nonempty]
  have hall : v.others.all v.snapshot.unreachable.contains = true ↔
      v.snapshot.peers v.node ⊆ v.snapshot.lostPeers v.node := by
    rw [List.all_eq_true]
    simp only [mem_others, List.contains_iff_mem]
    constructor
    · intro h n hn
      exact mem_lostPeers.mpr ⟨(mem_peers.mp hn).1, h n hn⟩
    · intro h n hn
      exact (mem_lostPeers.mp (h hn)).2
  rw [alone, Bool.and_eq_true, hsome, hall]

namespace Consumes

theorem alone_iff (h : Consumes node events v) : v.alone = true ↔
    (ofEvents events).lostPeers node = (ofEvents events).peers node ∧
      ((ofEvents events).lostPeers node).Nonempty := by
  -- the inclusion that the view does not test
  have hlost : (ofEvents events).lostPeers node ⊆ (ofEvents events).peers node :=
    lostPeers_subset (unreachable_subset events)
  rw [alone_iff_subset, h.node_eq, h.snapshot]
  constructor
  · rintro ⟨hsome, hall⟩
    have heq := Finset.Subset.antisymm hlost hall
    exact ⟨heq, heq ▸ hsome⟩
  · rintro ⟨heq, hsome⟩
    exact ⟨heq ▸ hsome, heq.superset⟩

theorem not_alone (h : Consumes node events v) (hx : x ∈ (ofEvents events).peers node)
    (hreach : x ∉ (ofEvents events).lostPeers node) : v.alone = false := by
  rw [← Bool.not_eq_true, h.alone_iff]
  rintro ⟨heq, -⟩
  exact hreach (heq ▸ hx)

end Consumes

/-- In a cluster that any events have led to, only members are unreachable, and so a node is alone exactly if its
lost peers are all the peers that it has, and there are some. It is not alone right after its last peer was removed,
a peer became reachable again, or a node that was not lost came up beside it. -/
theorem alone_iff_all_peers_lost (events : List MemberEvent) (node : String) :
    (ofEvents events).unreachable ⊆ (ofEvents events).members ∧
    (∀ v, Consumes node events v → (v.alone = true ↔
      (ofEvents events).lostPeers node = (ofEvents events).peers node ∧
        ((ofEvents events).lostPeers node).Nonempty)) ∧
    (∀ x v, (ofEvents events).peers node = {x} → Consumes node (events ++ [.removed x]) v →
      v.alone = false) ∧
    (∀ x v, x ∈ (ofEvents events).peers node → Consumes node (events ++ [.reachable x]) v →
      v.alone = false) ∧
    (∀ x v, x ≠ node → x ∉ (ofEvents events).unreachable → Consumes node (events ++ [.up x]) v →
      v.alone = false) := by
  refine ⟨unreachable_subset events, fun v h => h.alone_iff, fun x v hlast h => ?_, fun x v hx h => ?_,
    fun x v hne hreach h => ?_⟩
  · have hnone : (ofEvents (events ++ [.removed x])).peers node = ∅ := by
      rw [ofEvents_concat, peers_apply_removed, hlast, Finset.erase_singleton]
    rw [← Bool.not_eq_true, h.alone_iff, hnone]
    rintro ⟨heq, hsome⟩
    exact hsome.ne_empty heq
  · have hstays : x ∈ (ofEvents (events ++ [.reachable x])).peers node := by
      rw [ofEvents_concat]
      exact hx
    apply h.not_alone hstays
    rw [ofEvents_concat, lostPeers_apply_reachable]
    exact Finset.notMem_erase x _
  · have hcomes : x ∈ (ofEvents (events ++ [.up x])).peers node := by
      rw [ofEvents_concat, peers_apply_up hne]
      exact Finset.mem_insert_self x _
    apply h.not_alone hcomes
    rw [ofEvents_concat]
    exact fun hlost => hreach (mem_lostPeers.mp hlost).2

/-- A node that is itself taken for unreachable loses its only peer unseen, and is alone until that peer is
removed or reachable again or another one comes up. -/
theorem alone_after_only_peer_lost :
    ∃ v, Consumes "a" [.unreachable "a", .reachable "z", .removed "q", .unreachable "b", .unreachable "b"] v ∧
      v.alone = true ∧ (v.apply (.removed "b")).alone = false ∧
      (v.apply (.reachable "b")).alone = false ∧ (v.apply (.up "c")).alone = false := by
  have hbefore : Consumes "a" [] _ := .new []
  have h := hbefore.resync
    [.unreachable "a", .reachable "z", .removed "q", .unreachable "b", .unreachable "b"]
  obtain ⟨-, halone, hremoved, hreachable, hup⟩ := alone_iff_all_peers_lost _ "a"
  exact ⟨_, h, (halone _ h).mpr (by decide), hremoved "b" _ (by decide) (h.apply _),
    hreachable "b" _ (by decide) (h.apply _), hup "c" _ (by decide) (by decide) (h.apply _)⟩

end ClusterView
end HealthSignal
