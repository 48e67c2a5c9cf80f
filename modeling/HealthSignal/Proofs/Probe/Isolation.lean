import HealthSignal.Proofs.Probe.Mail

/-! When a readiness probe takes its node for isolated: after the view has been lonely for the debounce,
counted from the first of the messages that have left it lonely since. -/
namespace HealthSignal
open Timeline

/-- The views after each message, with the times at which the messages were handled, newest first. -/
abbrev Views := List (Nat × ClusterView)

namespace Views

def aloneSince : Views → Option Nat
  | [] => none
  | (t, v) :: older => if v.alone then some ((aloneSince older).getD t) else none

/-- The view has been lonely after every message since a time that lies `span` back. -/
def LongAlone (views : Views) (span now : Nat) : Prop :=
  ∃ newer a v older, views = newer ++ (a, v) :: older ∧ (∀ x ∈ newer, x.2.alone = true) ∧
    v.alone = true ∧ a + span ≤ now

variable {views : Views}

theorem aloneSince_append {newer older : Views} {a : Nat} {v : ClusterView}
    (hnewer : ∀ x ∈ newer, x.2.alone = true) (hv : v.alone = true) :
    aloneSince (newer ++ (a, v) :: older) = some ((aloneSince older).getD a) := by
  induction newer with
  | nil => simp [aloneSince, hv]
  | cons x newer ih =>
    have ih := ih fun y hy => hnewer y (List.mem_cons_of_mem x hy)
    simp [aloneSince, hnewer x List.mem_cons_self, ih]

theorem isSome_aloneSince {v : ClusterView} (h : views.head?.map (·.2) = some v) :
    views.aloneSince.isSome = v.alone := by
  cases views with
  | nil => simp at h
  | cons x older =>
    obtain ⟨t, u⟩ := x
    obtain rfl : u = v := by simpa using h
    cases hu : u.alone <;> simp [aloneSince, hu]

theorem exists_of_aloneSince {a : Nat} (h : aloneSince views = some a) :
    ∃ newer v older, views = newer ++ (a, v) :: older ∧ (∀ x ∈ newer, x.2.alone = true) ∧
      v.alone = true := by
  induction views with
  | nil => simp [aloneSince] at h
  | cons x older ih =>
    obtain ⟨t, v⟩ := x
    by_cases hv : v.alone = true
    · cases ho : aloneSince older with
      | none =>
        obtain rfl : t = a := by simpa [aloneSince, hv, ho] using h
        exact ⟨[], v, older, rfl, by simp, hv⟩
      | some b =>
        obtain rfl : b = a := by simpa [aloneSince, hv, ho] using h
        obtain ⟨newer, u, oldest, rfl, hnewer, hu⟩ := ih ho
        exact ⟨(t, v) :: newer, u, oldest, rfl, List.forall_mem_cons.mpr ⟨hv, hnewer⟩, hu⟩
    · simp [aloneSince, hv] at h

theorem longAlone_iff (hsorted : views.Pairwise fun x y => y.1 ≤ x.1) {span now : Nat} :
    views.LongAlone span now ↔ ∃ a, views.aloneSince = some a ∧ a + span ≤ now := by
  constructor
  · rintro ⟨newer, a, v, older, rfl, hnewer, hv, ha⟩
    refine ⟨_, aloneSince_append hnewer hv, ?_⟩
    cases ho : aloneSince older with
    | none => exact ha
    | some b =>
      obtain ⟨newer', u, oldest, rfl, -, -⟩ := exists_of_aloneSince ho
      have hle : b ≤ a := by
        have := (List.pairwise_append.mp hsorted).2.1
        exact (List.pairwise_cons.mp this).1 (b, u) (by simp)
      exact Nat.le_trans (Nat.add_le_add_right hle _) ha
  · rintro ⟨a, hsince, ha⟩
    obtain ⟨newer, v, older, hviews, hnewer, hv⟩ := exists_of_aloneSince hsince
    exact ⟨newer, a, v, older, hviews, hnewer, hv, ha⟩

end Views

namespace ClusterView

theorem up_liveness (v : ClusterView) : v.liveness.up = v.joined := by
  unfold liveness
  split
  · next hj => exact hj.symm
  · next hj => split <;> simp_all [Status.bad]

theorem readiness_of_not_joined {v : ClusterView} (h : v.joined = false) (debounce : Duration)
    (isolated : Bool) : v.readiness debounce isolated = v.liveness := by
  simp [readiness, h]

theorem up_readiness (v : ClusterView) (debounce : Duration) (isolated : Bool) :
    (v.readiness debounce isolated).up = (v.joined && !isolated) := by
  cases hj : v.joined with
  | false => rw [readiness_of_not_joined hj, up_liveness, hj, Bool.false_and]
  | true => cases isolated <;> simp [readiness, hj, Status.bad, Status.good]

end ClusterView

namespace Isolation

/-- The timer counts from the moment the view became lonely, until it has run out. -/
def Tells (i : Isolation) (views : Views) (now : Nat) : Prop :=
  match views.aloneSince with
  | none => i.timer = none ∧ i.isolated = false
  | some a => i.timer = some (a + i.debounce.timer) ∧ i.isolated = false ∨
    i.timer = none ∧ i.isolated = true ∧ a + i.debounce.timer ≤ now

variable {i : Isolation} {views : Views} {now : Nat}

theorem Tells.new (debounce : Duration) (now : Nat) : (Isolation.new debounce).Tells [] now :=
  ⟨rfl, rfl⟩

theorem Tells.pass (h : i.Tells views now) {later : Nat} (hle : now ≤ later) : i.Tells views later := by
  unfold Tells at h ⊢
  split
  · next hs => simpa only [hs] using h
  · next a hs =>
    simp only [hs] at h
    exact h.imp_right fun ⟨ht, hi, ha⟩ => ⟨ht, hi, Nat.le_trans ha hle⟩

@[simp] theorem debounce_reconcile (i : Isolation) (now : Nat) (v : ClusterView) :
    (i.reconcile now v).debounce = i.debounce := by
  unfold reconcile
  split
  · split <;> rfl
  · rfl

theorem reconcile_of_set (h : i.timer.isSome = true ∨ i.isolated = true) {v : ClusterView}
    (hv : v.alone = true) (now : Nat) : i.reconcile now v = i := by
  have hset : (i.timer.isNone && !i.isolated) = false := by
    obtain ht | hi := h
    · simp [Option.isNone_eq_false_iff.mpr ht]
    · simp [hi]
  simp [reconcile, hv, hset]

theorem Tells.reconcile (h : i.Tells views now) (v : ClusterView) :
    (i.reconcile now v).Tells ((now, v) :: views) now := by
  unfold Tells at h
  by_cases hv : v.alone = true
  · cases hs : views.aloneSince with
    | none =>
      simp only [hs] at h
      simp [Tells, Isolation.reconcile, Views.aloneSince, hv, hs, h]
    | some a =>
      simp only [hs] at h
      have hset : i.timer.isSome = true ∨ i.isolated = true := by
        obtain ⟨ht, -⟩ | ⟨-, hi, -⟩ := h
        · exact Or.inl (by rw [ht]; rfl)
        · exact Or.inr hi
      rw [reconcile_of_set hset hv]
      simpa [Tells, Views.aloneSince, hv, hs] using h
  · simp [Tells, Isolation.reconcile, Views.aloneSince, hv]

/-- Exactly one of the timer and `isolated` is set while the view is lonely, and none otherwise. -/
theorem Tells.set_iff (h : i.Tells views now) :
    ¬(i.timer.isSome = true ∧ i.isolated = true) ∧
      ((i.timer.isSome = true ∨ i.isolated = true) ↔ views.aloneSince.isSome = true) := by
  unfold Tells at h
  cases hs : views.aloneSince with
  | none => simp_all
  | some a =>
    simp only [hs] at h
    obtain ⟨ht, hi⟩ | ⟨ht, hi, -⟩ := h <;> simp [ht, hi]

theorem Tells.elapse (h : i.Tells views now) {t : Nat} (ht : i.timer = some t) (hle : t ≤ now)
    {v : ClusterView} (hv : v.alone = true) : (i.elapse v).Tells views now := by
  unfold Tells at h ⊢
  cases hs : views.aloneSince with
  | none => simp [hs, ht] at h
  | some a =>
    obtain ⟨rfl, -⟩ : t = a + i.debounce.timer ∧ i.isolated = false := by simpa [hs, ht] using h
    exact Or.inr ⟨rfl, by simp [Isolation.elapse, hv], hle⟩

end Isolation
end HealthSignal
