import HealthSignal.Proofs.Probe.Mail
import Mathlib.Data.List.Infix

/-! What a subscriber receives. Deliveries only grow, and while a probe runs the last one to a subscriber that
stays is its current status. -/
namespace HealthSignal

def Mail.about : Mail → List SubscriberId
  | .subscribe id | .unsubscribe id | .loss id => [id]
  | .query | .notices => []

namespace Hub
variable {h : Hub} {id x : SubscriberId}

structure Holds (h : Hub) (id : SubscriberId) : Prop where
  registered : id ∈ h.subscribers
  there : id ∉ h.gone
  last : (h.received id).getLast? = some h.current

theorem received_push (h : Hub) (x id : SubscriberId) :
    (h.push x).received id =
      if x = id ∧ x ∉ h.gone then h.received id ++ [h.current] else h.received id := by
  unfold push
  by_cases hg : x ∈ h.gone
  · simp [hg]
  · by_cases hx : x = id
    · subst hx
      simp [received, hg]
    · simp [received, hg, hx]

theorem received_subscribe (h : Hub) (x id : SubscriberId) :
    (h.subscribe x).received id = (h.push x).received id := by
  unfold subscribe
  simp only
  split <;> rfl

theorem subscribers_push (h : Hub) (x : SubscriberId) : (h.push x).subscribers = h.subscribers := by
  unfold push
  split <;> rfl

theorem gone_subscribe (h : Hub) (x : SubscriberId) : (h.subscribe x).gone = h.gone := by
  have hpush : (h.push x).gone = h.gone := by
    unfold push
    split <;> rfl
  unfold subscribe
  simp only
  split <;> exact hpush

theorem subscribers_subscribe (h : Hub) (x : SubscriberId) :
    (h.subscribe x).subscribers = if x ∈ h.subscribers then h.subscribers else h.subscribers ++ [x] := by
  unfold subscribe
  simp only [subscribers_push, List.contains_eq_mem, decide_eq_true_eq]
  split
  · exact subscribers_push h x
  · rfl

theorem mem_subscribers_subscribe (h : Hub) (x id : SubscriberId) :
    id ∈ (h.subscribe x).subscribers ↔ id = x ∨ id ∈ h.subscribers := by
  rw [subscribers_subscribe]
  split
  · next hx =>
    constructor
    · exact Or.inr
    · rintro (rfl | hid)
      · exact hx
      · exact hid
  · simp [or_comm]

theorem received_publish (h : Hub) (s : Status) (id : SubscriberId) :
    (h.publish s).received id =
      h.received id ++ .replicate ((h.subscribers.filter (!h.gone.contains ·)).count id) s := by
  have hpart : ∀ live : List SubscriberId,
      ((live.map (·, s)).filter (·.1 == id)).map (·.2) = .replicate (live.count id) s := by
    intro live
    induction live with
    | nil => rfl
    | cons x rest ih =>
      by_cases hx : x = id
      · simp [hx, ih, List.replicate_succ]
      · simp [hx, ih]
  unfold received publish
  simp only [List.filter_append, List.filter_reverse, List.reverse_append, List.reverse_reverse,
    List.map_append, hpart]

theorem Holds.publish (hh : h.Holds id) (s : Status) : (h.publish s).Holds id := by
  have hlive : id ∈ h.subscribers.filter (!h.gone.contains ·) := by
    simp [hh.registered, hh.there]
  refine ⟨hlive, hh.there, ?_⟩
  rw [received_publish]
  -- A registered subscriber is sent the status at least once, and nothing after it.
  obtain ⟨n, hn⟩ := Nat.exists_eq_add_one.mpr (List.count_pos_iff.mpr hlive)
  rw [hn, List.replicate_succ', ← List.append_assoc, List.getLast?_concat]
  rfl

theorem follow_cases (h : Hub) (s : Option Status) : h.follow s = h ∨ ∃ t, h.follow s = h.publish t := by
  cases s with
  | none => exact Or.inl rfl
  | some s =>
    by_cases hs : s = h.current
    · exact Or.inl (if_pos hs)
    · exact Or.inr ⟨s, if_neg hs⟩

theorem Holds.subscribe_self (hg : id ∉ h.gone) : (h.subscribe id).Holds id where
  registered := (mem_subscribers_subscribe h id id).mpr (Or.inl rfl)
  there := by rwa [gone_subscribe]
  last := by rw [received_subscribe, received_push, if_pos ⟨rfl, hg⟩, List.getLast?_concat, current_subscribe]

theorem Holds.subscribe (hh : h.Holds id) (x : SubscriberId) : (h.subscribe x).Holds id := by
  by_cases hx : x = id
  · exact hx ▸ subscribe_self (hx ▸ hh.there)
  · refine ⟨(mem_subscribers_subscribe h x id).mpr (Or.inr hh.registered), ?_, ?_⟩
    · rw [gone_subscribe]
      exact hh.there
    · rw [received_subscribe, received_push, if_neg fun h => hx h.1, current_subscribe]
      exact hh.last

theorem gone_lose (h : Hub) (x id : SubscriberId) : id ∈ (h.lose x).gone ↔ id = x ∨ id ∈ h.gone := by
  unfold lose
  by_cases hx : x ∈ h.gone
  · rw [if_pos (by simpa using hx)]
    constructor
    · exact Or.inr
    · rintro (rfl | hid)
      · exact hx
      · exact hid
  · rw [if_neg (by simpa using hx)]
    exact List.mem_cons

theorem received_lose (h : Hub) (x id : SubscriberId) : (h.lose x).received id = h.received id := by
  unfold lose
  split <;> rfl

theorem subscribers_lose (h : Hub) (x : SubscriberId) : (h.lose x).subscribers = h.subscribers := by
  unfold lose
  split <;> rfl

theorem Holds.lose (hh : h.Holds id) (hx : id ≠ x) : (h.lose x).Holds id where
  registered := by
    rw [subscribers_lose]
    exact hh.registered
  there := by simp [gone_lose, hx, hh.there]
  last := by rw [received_lose, current_lose, hh.last]

theorem Holds.settle (hh : h.Holds id) : h.settle.Holds id where
  registered := by simp [Hub.settle, hh.registered, hh.there]
  there := hh.there
  last := hh.last

theorem Holds.deliver (hh : h.Holds id) (m : Mail) (hm : id ∉ m.about) : (m.deliver h).Holds id := by
  cases m with
  | query => exact hh
  | subscribe x => exact hh.subscribe x
  | unsubscribe x =>
    have hx : id ≠ x := by simpa [Mail.about] using hm
    exact ⟨by simp [Mail.deliver, remove, hh.registered, hx], hh.there, hh.last⟩
  | loss x => exact hh.lose (by simpa [Mail.about] using hm)
  | notices => exact hh.settle

theorem received_deliver (h : Hub) (m : Mail) (id : SubscriberId) :
    h.received id <+: (m.deliver h).received id := by
  cases m with
  | query | unsubscribe | notices => exact List.prefix_rfl
  | loss x =>
    rw [Mail.deliver, received_lose]
  | subscribe x =>
    rw [Mail.deliver, received_subscribe, received_push]
    split
    · exact List.prefix_append ..
    · exact List.prefix_rfl

end Hub

structure Probe.Becomes (taken : List SubscriberId) (p q : Probe) : Prop where
  running : q.running = true → p.running = true
  received : ∀ id, p.hub.received id <+: q.hub.received id
  there : ∀ id, id ∉ taken → id ∈ q.hub.gone → id ∈ p.hub.gone
  holds : ∀ id, id ∉ taken → q.running = true → p.hub.Holds id → q.hub.Holds id

namespace Probe
variable {p q : Probe} {taken : List SubscriberId}

theorem Becomes.refl (p : Probe) (taken : List SubscriberId) : p.Becomes taken p :=
  ⟨id, fun _ => List.prefix_rfl, fun _ _ => id, fun _ _ _ => id⟩

theorem Becomes.trans {r : Probe} (h : p.Becomes taken q) (h' : q.Becomes taken r) : p.Becomes taken r where
  running := fun hr => h.running (h'.running hr)
  received := fun id => (h.received id).trans (h'.received id)
  there := fun id hid hg => h.there id hid (h'.there id hid hg)
  holds := fun id hid hr hh => h'.holds id hid hr (h.holds id hid (h'.running hr) hh)

theorem Becomes.mono {taken' : List SubscriberId} (h : p.Becomes taken q) (hsub : taken ⊆ taken') :
    p.Becomes taken' q where
  running := h.running
  received := h.received
  there := fun id hid => h.there id fun hmem => hid (hsub hmem)
  holds := fun id hid => h.holds id fun hmem => hid (hsub hmem)

theorem Becomes.publish (h : q.running = true → p.running = true) {s : Status}
    (hq : q.hub = p.hub.publish s) : p.Becomes [] q where
  running := h
  received := fun x => by
    rw [hq, Hub.received_publish]
    exact List.prefix_append ..
  there := fun x _ hg => by rwa [hq] at hg
  holds := fun x _ _ hh => by
    rw [hq]
    exact hh.publish s

theorem Becomes.follow (p : Probe) (s : Option Status) (source : Source) :
    p.Becomes [] (follow { p with source := source } s) := by
  have hhub := hub_follow { p with source := source } s
  obtain heq | ⟨t, heq⟩ := p.hub.follow_cases s
  · have hq : (Probe.follow { p with source := source } s).hub = p.hub := hhub.trans heq
    exact ⟨by simp, fun x => by rw [hq], fun x _ hg => by rwa [hq] at hg, fun x _ _ hh => by rwa [hq]⟩
  · exact .publish (by simp) (hhub.trans heq)

theorem Becomes.publishNext (p : Probe) (waiting : List Status) : p.Becomes [] (p.publishNext waiting) := by
  cases waiting with
  | nil => exact .refl p []
  | cons s rest => exact .publish id rfl

theorem Becomes.act (p : Probe) (feed : Feed) (now : Nat) : p.Becomes [] (p.act feed now) := by
  unfold Probe.act
  cases p.source with
  | fixed => exact .refl p []
  | manual waiting => exact .publishNext p waiting
  | cluster watch => exact .follow ..
  | persistence session => exact .follow ..

theorem Becomes.set {s : Status} (h : p.set s = .ok q) : p.Becomes [] q := by
  obtain ⟨-, waiting, -, rfl⟩ := set_eq_ok h
  exact ⟨id, fun _ => List.prefix_rfl, fun _ _ => id, fun _ _ _ => id⟩

theorem Becomes.mail {m : Mail} (h : p.command m.deliver = .ok q) : p.Becomes m.about q := by
  obtain ⟨hr, rfl⟩ := command_eq_ok h
  refine ⟨fun _ => hr, p.hub.received_deliver m, fun id hid hg => ?_, fun id hid _ hh => hh.deliver m hid⟩
  cases m with
  | query | unsubscribe | notices => exact hg
  | subscribe x => exact Hub.gone_subscribe p.hub x ▸ hg
  | loss x => exact ((Hub.gone_lose p.hub x id).mp hg).resolve_left (by simpa [Mail.about] using hid)

theorem Becomes.stop (p : Probe) : p.Becomes [] p.stop :=
  ⟨fun h => absurd h Bool.false_ne_true, fun _ => List.prefix_rfl, fun _ _ => id,
    fun _ _ h => absurd h Bool.false_ne_true⟩

theorem Becomes.release (p : Probe) (x : SubscriberId) :
    p.Becomes [x] { p with hub := (p.hub.lose x).settle } where
  running := id
  received := fun id => by
    have hr : (p.hub.lose x).settle.received id = (p.hub.lose x).received id := rfl
    rw [hr, Hub.received_lose]
  there := fun id hid hg => ((Hub.gone_lose p.hub x id).mp hg).resolve_left (by simpa using hid)
  holds := fun id hid _ hh => (hh.lose (by simpa using hid)).settle

theorem Becomes.subscribe (p : Probe) (x : SubscriberId) :
    p.Becomes [] { p with hub := p.hub.subscribe x } where
  running := id
  received := fun id => p.hub.received_deliver (.subscribe x) id
  there := fun _ _ hg => p.hub.gone_subscribe x ▸ hg
  holds := fun _ _ _ hh => hh.subscribe x

end Probe
end HealthSignal
