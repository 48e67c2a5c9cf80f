import HealthSignal.Membership.Feed
import Mathlib.Algebra.Group.Nat.Defs

/-! What a feed keeps of the events published on it, and what a receiver gets of them. Events are listed
oldest first. -/
namespace HealthSignal

def Snapshot.ofEvents (events : List MemberEvent) : Snapshot := events.foldl Snapshot.apply .empty

theorem Snapshot.ofEvents_concat (events : List MemberEvent) (e : MemberEvent) :
    ofEvents (events ++ [e]) = (ofEvents events).apply e := by
  simp [ofEvents]

namespace Feed
variable {f : Feed} {r : Receiver} {events : List MemberEvent}

structure Keeps (f : Feed) (events : List MemberEvent) : Prop where
  sent : f.sent = events.length
  recent : f.recent = events.reverse.take f.capacity
  snapshot : f.snapshot = .ofEvents events

def Overrun (f : Feed) (r : Receiver) : Prop := f.recent.length < f.sent - r.next

theorem le_double {goal steps n : Nat} (h : goal ≤ n * 2 ^ steps) : goal ≤ double goal steps n := by
  induction steps generalizing n with
  | zero => simpa [double] using h
  | succ steps ih =>
    unfold double
    split
    · assumption
    · exact ih (by rwa [Nat.mul_comm 2, Nat.mul_assoc, ← Nat.pow_succ'])

theorem exists_double_eq {goal k : Nat} (hgoal : goal ≤ 2 ^ k) (steps : Nat) {i : Nat} (hi : i ≤ k) :
    ∃ j ≤ k, double goal steps (2 ^ i) = 2 ^ j := by
  induction steps generalizing i with
  | zero => exact ⟨i, hi, rfl⟩
  | succ steps ih =>
    unfold double
    split
    · exact ⟨i, hi, rfl⟩
    · next hlt =>
      have hik : i < k := (Nat.pow_lt_pow_iff_right (a := 2) (by decide)).mp (by omega)
      rw [← Nat.pow_succ']
      exact ih hik

theorem le_powerAbove (n : Nat) : n ≤ powerAbove n :=
  le_double (by simpa using Nat.le_of_lt Nat.lt_two_pow_self)

/-- A feed can be made for any number of events from one to the most that there is room for. -/
theorem exists_new {capacity : Nat} (hpos : 1 ≤ capacity) (hmax : capacity ≤ maxCapacity) :
    ∃ f k, new capacity = .ok f ∧ capacity ≤ f.capacity ∧ f.capacity = 2 ^ k := by
  have hsize : capacity < UInt64.size / 2 := Nat.lt_of_le_of_lt hmax (by decide)
  obtain ⟨k, hk, heq⟩ := exists_double_eq (k := 57) hmax capacity (i := 0) (by decide)
  have hroom : powerAbove capacity ≤ maxCapacity := by
    calc powerAbove capacity = 2 ^ k := heq
      _ ≤ 2 ^ 57 := Nat.pow_le_pow_right (by decide) hk
  refine ⟨⟨powerAbove capacity, .empty, 0, [], false⟩, k, ?_, le_powerAbove capacity, heq⟩
  unfold new
  rw [if_neg (by omega), if_neg (by omega), if_neg (by omega)]

theorem Keeps.new {capacity : Nat} (h : new capacity = .ok f) : f.Keeps [] ∧ f.closed = false := by
  unfold Feed.new at h
  repeat' split at h
  all_goals cases h
  exact ⟨⟨rfl, by simp, rfl⟩, rfl⟩

theorem Keeps.publish (h : f.Keeps events) (e : MemberEvent) : (f.publish e).Keeps (events ++ [e]) where
  sent := by simp [Feed.publish, h.sent]
  recent := by
    cases hc : f.capacity with
    | zero => simp [Feed.publish, hc]
    | succ n => simp [Feed.publish, h.recent, hc, List.take_take]
  snapshot := by rw [Snapshot.ofEvents_concat, ← h.snapshot]; rfl

theorem Keeps.close (h : f.Keeps events) : f.close.Keeps events := { h with }

theorem Keeps.pending (h : f.Keeps events) (hr : ¬f.Overrun r) : f.pending r = events.drop r.next := by
  have hlen : events.length - r.next ≤ f.capacity := by
    simp only [Overrun, h.sent, h.recent, List.length_take, List.length_reverse] at hr
    omega
  rw [Feed.pending, h.sent, h.recent, List.take_take, Nat.min_eq_left hlen, List.reverse_take]
  simp only [List.reverse_reverse, List.length_reverse]
  by_cases hle : r.next ≤ events.length
  · rw [Nat.sub_sub_self hle]
  · rw [List.drop_eq_nil_of_le (by omega), List.drop_eq_nil_of_le (by omega)]

theorem receive_of_le (h : f.sent ≤ r.next) :
    f.receive r = (if f.closed then .closed else .empty, r) := by
  rw [receive, if_pos h]

theorem receive_of_overrun (h : f.Overrun r) : ∃ missed r', f.receive r = (.lagged missed, r') := by
  have hlt : ¬f.sent ≤ r.next := by
    unfold Overrun at h
    omega
  unfold Overrun at h
  rw [receive, if_neg hlt, if_pos h]
  exact ⟨_, _, rfl⟩

theorem Keeps.receive (h : f.Keeps events) (hlt : r.next < f.sent) (hr : ¬f.Overrun r) :
    ∃ e, events[r.next]? = some e ∧ f.receive r = (.event e, ⟨r.next + 1⟩) := by
  have hnext : r.next < events.length := h.sent ▸ hlt
  have hlen : f.sent - r.next - 1 < f.recent.length := by
    unfold Overrun at hr
    omega
  have hget : f.recent[f.sent - r.next - 1]? = some events[r.next] := by
    have hcap : f.sent - r.next - 1 < f.capacity := by
      rw [h.recent, List.length_take] at hlen
      omega
    rw [h.recent, List.getElem?_take_of_lt hcap, h.sent, List.getElem?_reverse (by omega),
      List.getElem?_eq_getElem (by omega)]
    congr 2
    omega
  refine ⟨events[r.next], List.getElem?_eq_getElem hnext, ?_⟩
  unfold Overrun at hr
  rw [Feed.receive, if_neg (by omega), if_neg hr, hget]

end Feed
end HealthSignal
