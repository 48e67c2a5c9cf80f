import HealthSignal.Proofs.Probe.Delivery
import HealthSignal.Proofs.Probe.History
import Mathlib.Data.List.Nodup

/-! A hub with the notices of losses that are under way to it. After anything at all was done to it, its
subscribers and what they received are what the history says. -/
namespace HealthSignal

namespace Hub

section
variable {h : Hub} {id : SubscriberId} {s : Status}

theorem transition_of_ne (hs : s ≠ h.current) : h.transition s = h.publish s := if_neg hs

theorem transition_of_eq (hs : s = h.current) : h.transition s = h := if_pos hs

/-- A transition leaves the hub alone or publishes. -/
@[elab_as_elim]
theorem transition_cases {motive : Hub → Prop} (same : motive h) (published : motive (h.publish s)) :
    motive (h.transition s) := by
  by_cases hs : s = h.current
  · rwa [transition_of_eq hs]
  · rwa [transition_of_ne hs]

theorem mem_publish : id ∈ (h.publish s).subscribers ↔ id ∈ h.subscribers ∧ id ∉ h.gone := by
  simp [publish]

theorem mem_remove {x : SubscriberId} : id ∈ (h.remove x).subscribers ↔ id ∈ h.subscribers ∧ id ≠ x := by
  simp [remove]

theorem received_publish_of_nodup (hs : h.subscribers.Nodup) (hg : id ∉ h.gone) (s : Status) :
    (h.publish s).received id = h.received id ++ if id ∈ h.subscribers then [s] else [] := by
  have hlive : (h.subscribers.filter (!h.gone.contains ·)).Nodup := hs.filter _
  rw [received_publish, hlive.count]
  by_cases hid : id ∈ h.subscribers
  · simp [hid, hg]
  · simp [hid]

end

def Act.perform : Act → Hub → Hub
  | .query, h | .unwatched _, h => h
  | .subscribe id, h => h.subscribe id
  | .unsubscribe id, h | .terminated id, h => h.remove id
  | .loss id, h => h.lose id
  | .publish s, h => h.publish s
  | .transition s, h => h.transition s

namespace Act
variable {h : Hub} {a : Act} {id : SubscriberId}

theorem current_perform (h : Hub) (a : Act) :
    (a.perform h).current = (a.pushes h.current).getD h.current := by
  cases a with
  | query | unsubscribe x | terminated x | unwatched x => rfl
  | subscribe x => exact current_subscribe h x
  | loss x => exact current_lose h x
  | publish s => rfl
  | transition s =>
    rw [perform, current_transition, pushes]
    split
    · next hs => exact hs
    · rfl

theorem gone_perform (h : Hub) (a : Act) (id : SubscriberId) :
    id ∈ (a.perform h).gone ↔ a = .loss id ∨ id ∈ h.gone := by
  cases a with
  | query | unsubscribe x | terminated x | unwatched x | publish s => simp [perform, remove, Hub.publish]
  | subscribe x => simp [perform, gone_subscribe]
  | loss x => simp [perform, gone_lose, eq_comm]
  | transition s =>
    rw [perform]
    refine transition_cases ?_ ?_ <;> simp [Hub.publish]

/-- Nobody is registered but by subscribing, and nobody stays registered who is removed. -/
theorem mem_of_mem_perform (hid : id ∈ (a.perform h).subscribers) :
    a = .subscribe id ∨ id ∈ h.subscribers ∧ a ≠ .unsubscribe id ∧ a ≠ .terminated id := by
  cases a with
  | query | unwatched x => exact Or.inr ⟨hid, nofun, nofun⟩
  | subscribe x =>
    obtain rfl | hid := (mem_subscribers_subscribe h x id).mp hid
    · exact Or.inl rfl
    · exact Or.inr ⟨hid, nofun, nofun⟩
  | unsubscribe x | terminated x =>
    obtain ⟨hid, hne⟩ := mem_remove.mp hid
    exact Or.inr ⟨hid, by simp [hne.symm], by simp [hne.symm]⟩
  | loss x => exact Or.inr ⟨(subscribers_lose h x).symm ▸ hid, nofun, nofun⟩
  | publish s => exact Or.inr ⟨(mem_publish.mp hid).1, nofun, nofun⟩
  | transition s =>
    have hsub : id ∈ (h.transition s).subscribers → id ∈ h.subscribers :=
      transition_cases (fun hid => hid) fun hid => (mem_publish.mp hid).1
    exact Or.inr ⟨hsub hid, nofun, nofun⟩

theorem mem_perform (hg : id ∉ h.gone)
    (hid : a = .subscribe id ∨ id ∈ h.subscribers ∧ a ≠ .unsubscribe id ∧ a ≠ .terminated id) :
    id ∈ (a.perform h).subscribers := by
  obtain rfl | ⟨hid, hun, hter⟩ := hid
  · exact (mem_subscribers_subscribe h id id).mpr (Or.inl rfl)
  cases a with
  | query | unwatched x => exact hid
  | subscribe x => exact (mem_subscribers_subscribe h x id).mpr (Or.inr hid)
  | unsubscribe x => exact mem_remove.mpr ⟨hid, fun he => hun (he ▸ rfl)⟩
  | terminated x => exact mem_remove.mpr ⟨hid, fun he => hter (he ▸ rfl)⟩
  | loss x => exact (subscribers_lose h x).symm ▸ hid
  | publish s => exact mem_publish.mpr ⟨hid, hg⟩
  | transition s =>
    rw [perform]
    exact transition_cases hid (mem_publish.mpr ⟨hid, hg⟩)

theorem enrolled_cons {acts : List Act} : enrolled id (a :: acts) = true ↔
    a = .subscribe id ∨ enrolled id acts = true ∧ a ≠ .unsubscribe id ∧ a ≠ .terminated id := by
  cases a <;> simp [enrolled]
  all_goals grind

theorem nodup_perform (hs : h.subscribers.Nodup) (a : Act) : (a.perform h).subscribers.Nodup := by
  cases a with
  | query | unwatched x => exact hs
  | subscribe x =>
    rw [perform, subscribers_subscribe]
    split
    · exact hs
    · next hx => exact List.nodup_append.mpr ⟨hs, by simp, by grind⟩
  | unsubscribe x | terminated x => exact hs.filter _
  | loss x => rwa [perform, subscribers_lose]
  | publish s => exact hs.filter _
  | transition s =>
    rw [perform]
    exact transition_cases hs (hs.filter _)

/-- Somebody whose receiver is there receives what the history says. -/
theorem received_perform {initial : Status} {acts : List Act} (hs : h.subscribers.Nodup)
    (hcur : h.current = statusAfter initial acts) (hmem : id ∈ h.subscribers ↔ enrolled id acts = true)
    (hg : id ∉ h.gone) :
    (a.perform h).received id = h.received id ++ (a.sends initial id acts).map (·.2) := by
  cases a with
  | query | unwatched x | unsubscribe x | terminated x =>
    simp [perform, sends, pushes, remove, received]
  | loss x => simp [perform, sends, pushes, received_lose]
  | subscribe x =>
    rw [perform, received_subscribe, received_push, hcur]
    by_cases hx : x = id
    · subst hx
      simp [sends, hg]
    · simp [sends, hx]
  | publish s =>
    rw [perform, received_publish_of_nodup hs hg]
    simp only [hmem, sends, pushes]
    split <;> simp
  | transition s =>
    by_cases hs' : s = h.current
    · rw [perform, transition_of_eq hs']
      simp [sends, pushes, hs', hcur]
    · rw [perform, transition_of_ne hs', received_publish_of_nodup hs hg]
      rw [hcur] at hs'
      simp only [hmem, sends, pushes, hs', if_false]
      split <;> simp

end Act

/-- A hub and the notices on their way to it: everybody registered is watched, and the watch sends one notice when
the receiver is gone. -/
structure Desk where
  hub : Hub
  notices : List SubscriberId

/-- What an act does to the notices. A watch starts with a registration, and may end without a notice once
nobody is registered there. -/
def Act.notify (h : Hub) (notices : List SubscriberId) : Act → List SubscriberId
  | .subscribe id => if id ∈ h.gone ∧ id ∉ h.subscribers then id :: notices else notices
  | .loss id => if id ∈ h.subscribers ∧ id ∉ h.gone then id :: notices else notices
  | .terminated id => notices.erase id
  | .unwatched id => if id ∈ h.subscribers then notices else notices.erase id
  | .query | .unsubscribe _ | .publish _ | .transition _ => notices

namespace Act
variable {h : Hub} {a : Act} {id : SubscriberId} {notices : List SubscriberId}

/-- Notices are of losses. -/
theorem gone_of_notify (hdue : ∀ id ∈ notices, id ∈ h.gone) (hid : id ∈ a.notify h notices) :
    id ∈ (a.perform h).gone := by
  rw [gone_perform]
  have hdue := hdue id
  have herase := fun x => @List.mem_of_mem_erase _ _ id x notices
  cases a <;> grind [notify]

/-- Whoever is registered without a receiver has a notice under way. -/
theorem notify_of_gone (howed : ∀ id ∈ h.subscribers, id ∈ h.gone → id ∈ notices)
    (hid : id ∈ (a.perform h).subscribers) (hg : id ∈ (a.perform h).gone) : id ∈ a.notify h notices := by
  rw [gone_perform] at hg
  have hmem := mem_of_mem_perform hid
  have howed := howed id
  cases a <;> grind [notify]

end Act

namespace Desk

def act (d : Desk) (a : Act) : Desk := ⟨a.perform d.hub, a.notify d.hub d.notices⟩

def after (initial : Status) : List Act → Desk
  | [] => ⟨.new initial, []⟩
  | a :: before => (after initial before).act a

structure Reflects (initial : Status) (acts : List Act) (d : Desk) : Prop where
  current : d.hub.current = statusAfter initial acts
  once : d.hub.subscribers.Nodup
  lost : ∀ id, id ∈ d.hub.gone ↔ .loss id ∈ acts
  enrolled : ∀ id ∈ d.hub.subscribers, enrolled id acts = true
  registered : ∀ id ∉ d.hub.gone, Hub.enrolled id acts = true → id ∈ d.hub.subscribers
  owed : ∀ id ∈ d.hub.subscribers, id ∈ d.hub.gone → id ∈ d.notices
  due : ∀ id ∈ d.notices, id ∈ d.hub.gone
  received : ∀ id ∉ d.hub.gone, d.hub.received id = (sent initial id acts).map (·.2)

namespace Reflects
variable {initial : Status} {acts : List Act} {d : Desk}

theorem start (initial : Status) : Reflects initial [] (after initial []) :=
  ⟨rfl, List.nodup_nil, by simp [after, new], by simp [after, new], by simp [Hub.enrolled], by simp [after, new],
    by simp [after], fun _ _ => rfl⟩

theorem mem_iff (h : Reflects initial acts d) {id : SubscriberId} (hg : id ∉ d.hub.gone) :
    id ∈ d.hub.subscribers ↔ Hub.enrolled id acts = true :=
  ⟨h.enrolled id, h.registered id hg⟩

theorem act (h : Reflects initial acts d) (a : Act) : Reflects initial (a :: acts) (d.act a) where
  current := by rw [Desk.act, Act.current_perform, statusAfter_cons, h.current]
  once := Act.nodup_perform h.once a
  lost id := by
    rw [Desk.act, Act.gone_perform, h.lost, List.mem_cons, eq_comm]
  enrolled id hid := Act.enrolled_cons.mpr ((Act.mem_of_mem_perform hid).imp_right fun hm => ⟨h.enrolled id hm.1, hm.2⟩)
  registered id hg hen := by
    have hg' : id ∉ d.hub.gone := fun hgone => hg ((Act.gone_perform d.hub a id).mpr (Or.inr hgone))
    exact Act.mem_perform hg' ((Act.enrolled_cons.mp hen).imp_right fun he => ⟨h.registered id hg' he.1, he.2⟩)
  owed id hid hg := Act.notify_of_gone h.owed hid hg
  due id hid := Act.gone_of_notify h.due hid
  received id hg := by
    have hg' : id ∉ d.hub.gone := fun hgone => hg ((Act.gone_perform d.hub a id).mpr (Or.inr hgone))
    rw [Desk.act, Act.received_perform h.once h.current (h.mem_iff hg') hg', h.received id hg', sent, List.map_append]

/-- The notices under way, handled one after the other, settle a hub. -/
theorem foldl_remove (h : Reflects initial acts d) : d.notices.foldl remove d.hub = d.hub.settle := by
  have hfold : ∀ (ids : List SubscriberId) (hub : Hub),
      ids.foldl remove hub = { hub with subscribers := hub.subscribers.filter (· ∉ ids) } := by
    intro ids
    induction ids with
    | nil => simp
    | cons x rest ih => simp [ih, remove, List.filter_filter, not_or, Bool.and_comm]
  rw [hfold, settle]
  congr 1
  refine List.filter_congr fun id hid => ?_
  have howed := h.owed id hid
  have hdue := h.due id
  grind

end Reflects

theorem reflects (initial : Status) (acts : List Act) : Reflects initial acts (after initial acts) := by
  induction acts with
  | nil => exact .start initial
  | cons a before ih => exact ih.act a

end Desk
end Hub
end HealthSignal
