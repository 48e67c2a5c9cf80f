import HealthSignal.Journal.File
import HealthSignal.Proofs.Transport.Directories

/-! Why a journal file cannot be opened: the operating system refuses the directory for a reason that it numbers, or the
database engine refuses the file. -/
namespace HealthSignal

def IoError.Numbered (e : IoError) : Prop := ∀ text, e ≠ .other text

namespace FileTree
variable {t t' : FileTree} {p : Path} {ps : List Path} {names : List String} {e : IoError}

theorem numbered_of_check (h : p.check = .error e) : e.Numbered := by
  unfold Path.check at h
  split at h
  · obtain rfl := Except.error.inj h
    simp [IoError.Numbered]
  · split at h
    · obtain rfl := Except.error.inj h
      simp [IoError.Numbered]
    · split at h
      · obtain rfl := Except.error.inj h
        simp [IoError.Numbered]
      · simp at h

theorem numbered_of_follow {see : Place → Option Sight} {q : Place} (h : follow see q names = .error e) :
    e.Numbered := by
  induction names generalizing q with
  | nil => simp [follow_nil] at h
  | cons name names ih =>
    rw [follow_cons] at h
    have hs := entering see q name
    generalize enter see q name = next at h hs
    cases hs with
    | up | down => exact ih h
    | long | blocked | missing =>
      obtain rfl := Except.error.inj h
      simp [IoError.Numbered]

theorem numbered_of_spot {see : Place → Option Sight} (h : spot see p = .error e) : e.Numbered := by
  have hs := spotting see p
  rw [h] at hs
  cases hs with
  | unfit hcheck => exact numbered_of_check hcheck
  | unled _ _ hf => exact numbered_of_follow hf
  | long => simp [IoError.Numbered]

theorem numbered_of_settle (hslash : p.ending ≠ .slash) (h : t.settle p (t.makeDirectory p) = (t', .error e)) :
    e.Numbered := by
  cases settling hslash h with
  | file => simp [IoError.Numbered]
  | lost _ hspot => exact numbered_of_spot hspot

theorem numbered_of_makeAll (hw : Path.Way ps names) (h : t.makeAll ps = (t', .error e)) : e.Numbered := by
  induction hw with
  | nil => simp [makeAll] at h
  | @cons p above names name hext hw ih =>
    cases makingAll h with
    | once _ hsettle => exact numbered_of_settle hext.not_slash hsettle
    | below _ _ hsettle => exact numbered_of_settle hext.not_slash hsettle
    | failed _ habove => exact ih habove

end FileTree

namespace Journal
variable {g : Engine} {t t' : FileTree} {p : Path} {e : JournalError}

def Capitalized (text : String) : Prop := ∃ first, text.toList.head? = some first ∧ first.isUpper = true

/-- Why the engine can neither open nor make a database is told in sentences, such as "Database already open. Cannot
acquire lock." or "I/O error: Is a directory (os error 21)". -/
def Engine.Speaks (g : Engine) : Prop := ∀ t p text, (g.create t p).2 = .error text → Capitalized text

theorem Engine.speaks_volatile : Engine.volatile.Speaks := by
  intro t p text h
  unfold volatile at h
  simp only at h
  split at h
  · obtain rfl := Except.error.inj h
    exact ⟨'I', rfl, rfl⟩
  · split at h
    · obtain rfl := Except.error.inj h
      exact ⟨'D', rfl, rfl⟩
    · split at h
      · simp at h
      · next e _ =>
        obtain rfl := Except.error.inj h
        exact ⟨'I', by simp, rfl⟩

inductive Unopened : JournalError → Prop
  | parents {e : IoError} : e.Numbered → Unopened ⟨.opening, e.message⟩
  | file {text : String} : Capitalized text → Unopened ⟨.opening, text⟩
  | tables {e : JournalError} : e.kind ≠ .opening → Unopened e

theorem step_error {α : Type} {kind : JournalError.Kind} {r : Except String α} (h : step kind r = .error e) :
    ∃ text, r = .error text ∧ e = ⟨kind, text⟩ := by
  cases r with
  | ok a => simp [step, Except.mapError] at h
  | error text => exact ⟨text, rfl, (Except.error.inj h).symm⟩

/-- A step of another kind, and what follows it, do not fail as an opening does. -/
theorem kind_ne_of_step {α : Type} {kind : JournalError.Kind} {r : Except String Unit} {rest : Except JournalError α}
    (hkind : kind ≠ .opening) (hrest : ∀ e, rest = .error e → e.kind ≠ .opening) :
    ∀ e, (step kind r >>= fun _ => rest) = .error e → e.kind ≠ .opening := by
  intro e h
  cases hr : step kind r with
  | ok _ => exact hrest e (by rwa [hr] at h)
  | error e' =>
    obtain ⟨text, -, rfl⟩ := step_error hr
    rw [hr] at h
    exact Except.error.inj h ▸ hkind

theorem ensureTables_error {j : Journal} : ∀ e, ensureTables g j = .error e → e.kind ≠ .opening := by
  unfold ensureTables
  refine kind_ne_of_step (by decide) (kind_ne_of_step (by decide) (kind_ne_of_step (by decide) fun e h => ?_))
  obtain ⟨text, -, rfl⟩ := step_error h
  show JournalError.Kind.transaction ≠ .opening
  decide

theorem openAt_error (hg : g.Speaks) (h : openAt g t p = (t', .error e)) : Unopened e := by
  unfold openAt at h
  obtain ⟨-, h⟩ := Prod.mk.inj h
  cases hcreate : (g.create t p).2 with
  | error text =>
    rw [hcreate] at h
    obtain rfl := Except.error.inj h
    exact .file (hg t p text hcreate)
  | ok j =>
    rw [hcreate] at h
    cases htables : ensureTables g j with
    | error e' =>
      simp only [step, Except.mapError, bind, Except.bind, htables] at h
      obtain rfl := Except.error.inj h
      exact .tables (ensureTables_error e' htables)
    | ok _ => simp [step, Except.mapError, bind, Except.bind, htables, pure, Except.pure] at h

theorem openFile_error (hg : g.Speaks) (h : openFile g t p = (t', .error e)) : Unopened e := by
  unfold openFile at h
  split at h
  · next e' he =>
    obtain ⟨-, h⟩ := Prod.mk.inj h
    obtain rfl := Except.error.inj h
    exact .parents (FileTree.numbered_of_makeAll (Path.way_ancestors p) he)
  · exact openAt_error hg h

end Journal
end HealthSignal
