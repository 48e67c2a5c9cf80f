import HealthSignal.RoundTrip.Report
import Mathlib.Data.List.Induction

/-! What a verdict holds after any reports: of each axis the last outcome that a report had for it, whatever
became of the other axis. -/
namespace HealthSignal.RoundTrip

inductive Side
  | journal
  | snapshot
  deriving DecidableEq

namespace Side

def name : Side → String
  | .journal => "journal"
  | .snapshot => "snapshot"

def state (v : Verdict) : Side → Axis
  | .journal => v.journal
  | .snapshot => v.snapshot

def reason? (v : Verdict) : Side → Option String
  | .journal => v.journalFailure
  | .snapshot => v.snapshotFailure

def outcome (r : Report) : Side → Outcome
  | .journal => r.journal
  | .snapshot => r.snapshot

def outcomes (a : Side) (reports : List Report) : List (Except Failure Unit) := reports.filterMap a.outcome

theorem forall_iff {P : Side → Prop} : (∀ a, P a) ↔ P .journal ∧ P .snapshot :=
  ⟨fun h => ⟨h _, h _⟩, fun ⟨hj, hs⟩ a => by cases a with
    | journal => exact hj
    | snapshot => exact hs⟩

theorem exists_iff {P : Side → Prop} : (∃ a, P a) ↔ P .journal ∨ P .snapshot :=
  ⟨fun ⟨a, h⟩ => by cases a with
    | journal => exact Or.inl h
    | snapshot => exact Or.inr h,
  fun h => h.elim (⟨_, ·⟩) (⟨_, ·⟩)⟩

end Side

namespace Verdict
variable {v : Verdict} {reports : List Report}

def of (reports : List Report) : Verdict := reports.foldl update initial

theorem of_concat (reports : List Report) (r : Report) : of (reports ++ [r]) = (of reports).update r := by
  simp [of]

theorem after_update (a : Side) (v : Verdict) (r : Report) :
    (a.state (v.update r), a.reason? (v.update r)) = Axis.after (a.state v, a.reason? v) (a.outcome r) := by
  cases a <;> rfl

inductive Told : Outcome → Axis × Option String → Prop
  | nothing : Told none (.unknown, none)
  | success : Told (some (.ok ())) (.recovered, none)
  | failure (f : Failure) : Told (some (.error f)) (.failed, some f.message)

theorem Told.after {last : Outcome} {held : Axis × Option String} (h : Told last held) (o : Outcome) :
    Told (o.or last) (Axis.after held o) := by
  match o with
  | none => exact h
  | some (.ok ()) => exact .success
  | some (.error f) => exact .failure f

/-- State and reason of an axis go with the last outcome of that axis. -/
theorem told_of (a : Side) (reports : List Report) :
    Told (a.outcomes reports).getLast? (a.state (of reports), a.reason? (of reports)) := by
  induction reports using List.reverseRecOn with
  | nil => cases a <;> exact .nothing
  | append_singleton reports r ih =>
    have hlast : (a.outcomes (reports ++ [r])).getLast? = (a.outcome r).or (a.outcomes reports).getLast? := by
      cases ho : a.outcome r <;> simp [Side.outcomes, ho]
    rw [of_concat, hlast, after_update]
    exact ih.after _

theorem held_iff (a : Side) (reports : List Report) :
    (a.state (of reports) = .unknown ↔ ∀ r ∈ reports, a.outcome r = none) ∧
    (a.state (of reports) = .recovered ↔ (a.outcomes reports).getLast? = some (.ok ())) ∧
    (a.state (of reports) = .failed ↔ ∃ f, (a.outcomes reports).getLast? = some (.error f)) ∧
    ∀ text, a.reason? (of reports) = some text ↔
      ∃ f, (a.outcomes reports).getLast? = some (.error f) ∧ text = f.message := by
  have h := told_of a reports
  rw [← List.filterMap_eq_nil_iff, ← Side.outcomes, ← List.getLast?_eq_none_iff]
  generalize (a.outcomes reports).getLast? = last, a.state (of reports) = state,
    a.reason? (of reports) = reason at h ⊢
  cases h <;> simp [eq_comm]

/-- The failed ones among some axes with their last failures, and the lines that explain them. -/
theorem exists_failures (sides : List Side) (reports : List Report) : ∃ failures : List (Side × Failure),
    failures.map Prod.fst = sides.filter (·.state (of reports) = .failed) ∧
    (∀ x ∈ failures, (x.1.outcomes reports).getLast? = some (.error x.2)) ∧
    sides.filterMap (fun a => (a.reason? (of reports)).map (a.name ++ ": " ++ ·)) =
      failures.map fun x => x.1.name ++ ": " ++ x.2.message := by
  induction sides with
  | nil => exact ⟨[], rfl, by simp, rfl⟩
  | cons a sides ih =>
    obtain ⟨failures, hsides, hlast, hlines⟩ := ih
    have h := told_of a reports
    generalize ho : (a.outcomes reports).getLast? = last, hs : a.state (of reports) = state,
      hr : a.reason? (of reports) = reason at h
    cases h with
    | nothing | success =>
      exact ⟨failures, by simp [hs, hsides], hlast, by rw [List.filterMap_cons_none (by simp [hr]), hlines]⟩
    | failure f =>
      refine ⟨(a, f) :: failures, by simp [hs, hsides], List.forall_mem_cons.mpr ⟨ho, hlast⟩, ?_⟩
      rw [List.filterMap_cons_some (by rw [hr]; rfl), hlines]
      rfl

theorem up_status : v.status.up = true ↔ ∀ a : Side, a.state v = .recovered := by
  rw [Side.forall_iff, status]
  cases hj : v.journal <;> cases hs : v.snapshot <;>
    simp [Side.state, hj, hs, Status.bad, succeeded, Status.good, warmingUp]

theorem storeFailure_ne_warmingUp (text : String) :
    Status.bad ("persistence store failure: " ++ text) ≠ warmingUp := by
  intro h
  have hletter := congrArg (·.message.toList[12]?) h
  simp [Status.bad, warmingUp] at hletter

theorem status_eq_warmingUp :
    v.status = warmingUp ↔ (∀ a : Side, a.state v ≠ .failed) ∧ ∃ a : Side, a.state v = .unknown := by
  have hsucceeded : succeeded ≠ warmingUp := by decide
  rw [Side.forall_iff, Side.exists_iff, status]
  cases hj : v.journal <;> cases hs : v.snapshot <;>
    simp [Side.state, hj, hs, storeFailure_ne_warmingUp, hsucceeded]

theorem status_of_failed (h : ∃ a : Side, a.state v = .failed) :
    v.status = .bad ("persistence store failure: " ++ String.intercalate "; " v.complaints) :=
  if_pos (Side.exists_iff.mp h)

theorem exists_failed (hdown : v.status.up = false) (hwarm : v.status ≠ warmingUp) :
    ∃ a : Side, a.state v = .failed := by
  by_contra hnot
  have hnot : ∀ a : Side, a.state v ≠ .failed := fun a ha => hnot ⟨a, ha⟩
  refine hwarm (status_eq_warmingUp.mpr ⟨hnot, ?_⟩)
  by_contra hknown
  have hup : ∀ a : Side, a.state v = .recovered := fun a => by
    cases hs : a.state v with
    | unknown => exact absurd ⟨a, hs⟩ hknown
    | recovered => rfl
    | failed => exact absurd hs (hnot a)
  rw [up_status.mpr hup] at hdown
  cases hdown

/-- After any reports each axis is in the state of its last outcome, with the reason if that was a failure; an axis
that was exercised stays known. The status is up if both axes recovered, warms up while none has failed and one is
unknown, and otherwise lists the failed axes with their last failures. -/
theorem last_outcomes_show (reports : List Report) :
    (∀ a : Side,
      (a.state (of reports) = .unknown ↔ ∀ r ∈ reports, a.outcome r = none) ∧
      (a.state (of reports) = .recovered ↔ (a.outcomes reports).getLast? = some (.ok ())) ∧
      (a.state (of reports) = .failed ↔ ∃ f, (a.outcomes reports).getLast? = some (.error f)) ∧
      (∀ text, a.reason? (of reports) = some text ↔
        ∃ f, (a.outcomes reports).getLast? = some (.error f) ∧ text = f.message) ∧
      ∀ more, a.state (of reports) ≠ .unknown → a.state (of (reports ++ more)) ≠ .unknown) ∧
    ((of reports).status.up = true ↔ ∀ a : Side, a.state (of reports) = .recovered) ∧
    ((of reports).status = warmingUp ↔
      (∀ a : Side, a.state (of reports) ≠ .failed) ∧ ∃ a : Side, a.state (of reports) = .unknown) ∧
    ((of reports).status.up = false → (of reports).status ≠ warmingUp →
      ∃ failures : List (Side × Failure), failures ≠ [] ∧
        failures.map Prod.fst = [Side.journal, .snapshot].filter (·.state (of reports) = .failed) ∧
        (∀ x ∈ failures, (x.1.outcomes reports).getLast? = some (.error x.2)) ∧
        (of reports).status = .bad ("persistence store failure: " ++
          String.intercalate "; " (failures.map fun x => x.1.name ++ ": " ++ x.2.message))) := by
  refine ⟨fun a => ?_, up_status, status_eq_warmingUp, fun hdown hwarm => ?_⟩
  · obtain ⟨hunknown, hrecovered, hfailed, hreason⟩ := held_iff a reports
    refine ⟨hunknown, hrecovered, hfailed, hreason, fun more hknown hagain => hknown (hunknown.mpr fun r hr => ?_)⟩
    exact (held_iff a _).1.mp hagain r (List.mem_append_left _ hr)
  · have hsome := exists_failed hdown hwarm
    obtain ⟨failures, hsides, hlast, hlines⟩ := exists_failures [.journal, .snapshot] reports
    refine ⟨failures, fun hnil => ?_, hsides, hlast, ?_⟩
    · obtain ⟨a, ha⟩ := hsome
      have hmem : a ∈ [Side.journal, .snapshot].filter (·.state (of reports) = .failed) :=
        List.mem_filter.mpr ⟨by cases a <;> simp, decide_eq_true ha⟩
      rw [← hsides, hnil] at hmem
      simp at hmem
    · rw [status_of_failed hsome, ← hlines]
      rfl

example : (of [⟨some (.error (.store ⟨.reading, "gone"⟩)), some (.error (.store ⟨.writing, "full"⟩)), none, none⟩,
      ⟨some (.ok ()), none, none, none⟩]).status = .bad "persistence store failure: snapshot: write error: full" := by
  decide

end Verdict
end HealthSignal.RoundTrip
