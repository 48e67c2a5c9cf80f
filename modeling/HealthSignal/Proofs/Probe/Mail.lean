import HealthSignal.Probe.Basic

/-! Messages to a probe. They reach its hub alone and leave the current status as it is. -/
namespace HealthSignal

inductive Mail
  | query
  | subscribe (id : SubscriberId)
  | unsubscribe (id : SubscriberId)
  | loss (id : SubscriberId)
  /-- The notices of every loss so far arrive. -/
  | notices

def Mail.deliver : Mail → Hub → Hub
  | .query, h => h
  | .subscribe id, h => h.subscribe id
  | .unsubscribe id, h => h.remove id
  | .loss id, h => h.lose id
  | .notices, h => h.settle

namespace Hub

theorem current_push (h : Hub) (id : SubscriberId) : (h.push id).current = h.current := by
  unfold push
  split <;> rfl

theorem current_subscribe (h : Hub) (id : SubscriberId) : (h.subscribe id).current = h.current := by
  unfold subscribe
  simp only
  split <;> exact current_push h id

theorem current_lose (h : Hub) (id : SubscriberId) : (h.lose id).current = h.current := by
  unfold lose
  split <;> rfl

@[simp] theorem current_deliver (m : Mail) (h : Hub) : (m.deliver h).current = h.current := by
  cases m with
  | query => rfl
  | subscribe id => exact current_subscribe h id
  | unsubscribe id => rfl
  | loss id => exact current_lose h id
  | notices => rfl

@[simp] theorem current_transition (h : Hub) (s : Status) : (h.transition s).current = s := by
  unfold transition
  split
  · next he => exact he.symm
  · rfl

def follow (h : Hub) : Option Status → Hub
  | some s => h.transition s
  | none => h

theorem current_follow (h : Hub) (s : Option Status) : (h.follow s).current = s.getD h.current := by
  cases s with
  | none => rfl
  | some s => exact current_transition h s

end Hub

def Source.waiting : Source → List Status
  | .manual waiting => waiting
  | _ => []

namespace Probe

theorem hub_follow (p : Probe) (s : Option Status) : (p.follow s).hub = p.hub.follow s := by
  cases s <;> rfl

@[simp] theorem current_follow_some (p : Probe) (s : Status) :
    (p.follow (some s)).hub.current = s := by
  simp [follow]

@[simp] theorem source_follow (p : Probe) (s : Option Status) : (p.follow s).source = p.source := by
  cases s <;> rfl

@[simp] theorem running_follow (p : Probe) (s : Option Status) :
    (p.follow s).running = p.running := by
  cases s <;> rfl

theorem act_manual {p : Probe} {waiting : List Status} (h : p.source = .manual waiting) (feed : Feed) (now : Nat) :
    p.act feed now = p.publishNext waiting := by
  rw [act, h]

theorem source_publishNext {p : Probe} {waiting : List Status} (h : p.source = .manual waiting) :
    (p.publishNext waiting).source = .manual waiting.tail := by
  cases waiting with
  | nil => exact h
  | cons => rfl

theorem set_eq_ok {p q : Probe} {s : Status} (h : p.set s = .ok q) :
    p.running = true ∧ ∃ waiting, p.source = .manual waiting ∧ q = { p with source := .manual (waiting ++ [s]) } := by
  unfold set at h
  split at h
  · next waiting hr hs => exact ⟨hr, waiting, hs, (Except.ok.inj h).symm⟩
  · cases h

theorem command_eq_ok {p q : Probe} {f : Hub → Hub} (h : p.command f = .ok q) :
    p.running = true ∧ q = { p with hub := f p.hub } := by
  unfold command at h
  split at h
  · next hr => exact ⟨hr, (Except.ok.inj h).symm⟩
  · simp at h

end Probe
end HealthSignal
