import HealthSignal.Proofs.Probe.Desk

/-! The law of delivery. The subscribers of a hub, what they receive and what a query is answered follow from what
was done to the hub, and a probe does no more to its hub than its source asks for. -/
namespace HealthSignal

namespace Probe
open Hub (Act Desk)

/-- What became of a probe while it ran, with the statuses that were handed in, oldest first, and what was done to its
hub, newest first. What is handed in is published; every other source leads from one status to another. -/
inductive Went (initial : Status) : List Status → List Act → Probe → Prop
  | start (name : String) (signal : Signal) (source : Source) :
    Went initial source.waiting [] (start name signal initial source)
  | told {handed : List Status} {acts : List Act} {p q : Probe} (a : Act) : Went initial handed acts p →
    (∀ s, a ≠ .publish s ∧ a ≠ .transition s) → p.command a.perform = .ok q → Went initial handed (a :: acts) q
  | set {handed : List Status} {acts : List Act} {p q : Probe} {s : Status} : Went initial handed acts p →
    p.set s = .ok q → Went initial (handed ++ [s]) acts q
  | publish {handed rest : List Status} {acts : List Act} {p : Probe} {s : Status} : Went initial handed acts p →
    p.source = .manual (s :: rest) → Went initial handed (.publish s :: acts) (p.publishNext (s :: rest))
  | follow {handed : List Status} {acts : List Act} {p : Probe} (source : Source) (s : Option Status) :
    Went initial handed acts p → (∀ waiting, p.source ≠ .manual waiting) → (∀ waiting, source ≠ .manual waiting) →
    Went initial handed ((s.map .transition).toList ++ acts) (follow { p with source := source } s)

namespace Went
variable {initial : Status} {handed : List Status} {acts : List Act} {p q : Probe}

theorem hub (h : Went initial handed acts p) : p.hub = (Desk.after initial acts).hub := by
  induction h with
  | start => rfl
  | told a _ _ hq ih =>
    obtain ⟨-, rfl⟩ := command_eq_ok hq
    exact congrArg a.perform ih
  | set _ hq ih =>
    obtain ⟨-, waiting, -, rfl⟩ := set_eq_ok hq
    exact ih
  | @publish _ _ _ _ s _ _ ih => exact congrArg (Act.publish s).perform ih
  | follow source s _ _ _ ih =>
    rw [hub_follow]
    cases s with
    | none => exact ih
    | some s => exact congrArg (Act.transition s).perform ih

/-- A default probe never compares what it is told with what it is. -/
theorem no_transition (h : Went initial handed acts p) {waiting : List Status} (hp : p.source = .manual waiting)
    (s : Status) : .transition s ∉ acts := by
  induction h generalizing waiting with
  | start => simp
  | told a _ ha hq ih =>
    obtain ⟨-, rfl⟩ := command_eq_ok hq
    exact List.not_mem_cons_of_ne_of_not_mem (fun he => (ha s).2 he.symm) (ih hp)
  | set _ hq ih =>
    obtain ⟨-, waiting', hs, rfl⟩ := set_eq_ok hq
    exact ih hs
  | publish _ hs ih => exact List.not_mem_cons_of_ne_of_not_mem nofun (ih hs)
  | follow source t _ _ hs ih => exact absurd ((source_follow _ t).symm.trans hp) (hs waiting)

theorem no_publish (h : Went initial handed acts p) (hp : ∀ waiting, p.source ≠ .manual waiting) (s : Status) :
    .publish s ∉ acts := by
  induction h with
  | start => simp
  | told a _ ha hq ih =>
    obtain ⟨-, rfl⟩ := command_eq_ok hq
    exact List.not_mem_cons_of_ne_of_not_mem (fun he => (ha s).1 he.symm) (ih hp)
  | set _ hq ih =>
    obtain ⟨-, waiting, -, rfl⟩ := set_eq_ok hq
    exact absurd rfl (hp _)
  | publish => exact absurd rfl (hp _)
  | follow source t _ hm _ ih =>
    have := ih hm
    cases t <;> simp [this]

/-- What is handed in is published in its order, or waits. -/
theorem published_append (h : Went initial handed acts p) {waiting : List Status} (hp : p.source = .manual waiting) :
    Hub.published acts ++ waiting = handed := by
  induction h generalizing waiting with
  | start name signal source =>
    obtain rfl : source = .manual waiting := hp
    rfl
  | @told _ acts p' _ a _ ha hq ih =>
    obtain ⟨-, rfl⟩ := command_eq_ok hq
    rw [← ih hp]
    cases a with
    | publish s => exact absurd rfl (ha s).1
    | _ => simp [Hub.published]
  | set _ hq ih =>
    obtain ⟨-, waiting', hs, rfl⟩ := set_eq_ok hq
    obtain rfl := Source.manual.inj hp
    rw [← List.append_assoc, ih hs]
  | publish _ hs ih =>
    obtain rfl := Source.manual.inj hp
    rw [← ih hs]
    simp [Hub.published]
  | follow source t _ _ hs => exact absurd ((source_follow _ t).symm.trans hp) (hs waiting)

theorem persistence (settings : RoundTrip.Settings) (journal : Journal) (faults : RoundTrip.Faults) (now : Nat) :
    ∃ acts, Went RoundTrip.warmingUp [] acts (persistence settings journal faults now) := by
  cases hs : RoundTrip.Session.start settings journal faults now with
  | mk session status =>
    have h : Went RoundTrip.warmingUp [] [] _ := .start "persistence-liveness" .liveness (.persistence session)
    refine ⟨(status.map Act.transition).toList ++ [], ?_⟩
    rw [Probe.persistence, hs]
    exact h.follow (.persistence session) status nofun nofun

/-- Whatever a probe is built from. -/
theorem build (signal : Signal) (provider : String) (means : Means) (now : Nat) :
    ∃ initial acts, Went initial [] acts (build signal provider means now) := by
  unfold Probe.build
  cases Provider.resolve signal provider with
  | error e => exact ⟨_, [], .start _ _ .fixed⟩
  | ok provider =>
    cases provider with
    | default => exact ⟨_, [], .start _ _ (.manual [])⟩
    | cluster => cases signal <;> exact ⟨_, [], .start _ _ (.cluster _)⟩
    | persistence =>
      cases hj : means.journal with
      | ok journal =>
        obtain ⟨acts, h⟩ := persistence means.settings journal .none now
        exact ⟨_, acts, by simpa [hj] using h⟩
      | error e => exact ⟨_, [], by simpa [hj] using .start _ _ .fixed⟩

/-- Whatever a running probe does on its own. -/
theorem act (h : Went initial handed acts p) (feed : Feed) (now : Nat) :
    ∃ acts', Went initial handed acts' (p.act feed now) := by
  unfold Probe.act
  cases hs : p.source with
  | fixed => exact ⟨acts, h⟩
  | manual waiting =>
    cases waiting with
    | nil => exact ⟨acts, h⟩
    | cons s rest => exact ⟨_, h.publish hs⟩
  | cluster watch => exact ⟨_, h.follow _ _ (by simp [hs]) nofun⟩
  | persistence session => exact ⟨_, h.follow _ _ (by simp [hs]) nofun⟩

theorem terminated (h : Went initial handed acts p) (hr : p.running = true) (ids : List SubscriberId) :
    Went initial handed (ids.reverse.map .terminated ++ acts) { p with hub := ids.foldl Hub.remove p.hub } := by
  induction ids generalizing acts p with
  | nil => exact h
  | cons id rest ih =>
    have hq : p.command (Act.terminated id).perform = .ok { p with hub := p.hub.remove id } := if_pos hr
    simpa using ih (h.told (.terminated id) (fun _ => ⟨nofun, nofun⟩) hq) hr

/-- Whatever a running probe is told, and whatever it learns of its subscribers. -/
theorem mail (h : Went initial handed acts p) {m : Mail} (hq : p.command m.deliver = .ok q) :
    ∃ acts', Went initial handed (acts' ++ acts) q := by
  cases m with
  | query => exact ⟨[.query], h.told .query (fun _ => ⟨nofun, nofun⟩) hq⟩
  | subscribe id => exact ⟨[.subscribe id], h.told (.subscribe id) (fun _ => ⟨nofun, nofun⟩) hq⟩
  | unsubscribe id => exact ⟨[.unsubscribe id], h.told (.unsubscribe id) (fun _ => ⟨nofun, nofun⟩) hq⟩
  | loss id => exact ⟨[.loss id], h.told (.loss id) (fun _ => ⟨nofun, nofun⟩) hq⟩
  | notices =>
    obtain ⟨hr, rfl⟩ := command_eq_ok hq
    have hd := Desk.reflects initial acts
    have hq := h.terminated hr (Desk.after initial acts).notices
    rw [h.hub, hd.foldl_remove] at hq
    exact ⟨_, h.hub ▸ hq⟩

end Went
end Probe

namespace Hub
open Probe (Went)

end Hub
end HealthSignal
