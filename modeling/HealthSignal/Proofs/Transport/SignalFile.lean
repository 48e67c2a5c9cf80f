import HealthSignal.Proofs.Transport.Directories
import HealthSignal.Transport.File

/-! What calls on a signal file do to the tree, and what comes of them. -/
namespace HealthSignal.SignalFile

open FileTree

variable {f : SignalFile} {t t' : FileTree} {message : String} {e : IoError}

/-! ### The directories above the file -/

theorem parents_way (f : SignalFile) : Path.Way f.path.ancestors f.path.names.dropLast := Path.way_ancestors f.path

theorem parents_forward (hup : ".." ∉ f.path.names) : ".." ∉ f.path.names.dropLast := mt List.mem_of_mem_dropLast hup

/-- Without steps up, the directories above a path lie elsewhere. -/
theorem place_of_parent_ne (hup : ".." ∉ f.path.names) {p : Path} (hp : p ∈ f.path.ancestors) :
    p.place ≠ f.path.place := by
  have hpre : p.names <+: f.path.names.dropLast := (parents_way f).initial p hp
  have hup' : ".." ∉ p.names := fun hmem => parents_forward hup (hpre.subset hmem)
  rw [place_eq_names hup, place_eq_names hup']
  intro heq
  have hlen : f.path.names.length ≤ f.path.names.length - 1 := by simpa [heq] using hpre.length_le
  have hnil : f.path.names = [] := List.length_eq_zero_iff.mp (by omega)
  have hw := parents_way f
  rw [hnil] at hw
  generalize f.path.ancestors = ps, hnames : ([] : List String).dropLast = names at hp hw
  cases hw with
  | nil => simp at hp
  | cons => simp at hnames

/-! ### Calls -/

inductive Going (f : SignalFile) (t : FileTree) (message : String) : FileTree × Except IoError Unit → Prop
  | unmade {t' : FileTree} {e : IoError} : t.makeParents f.path = (t', .error e) → Going f t message (t', .error e)
  | refused {t' : FileTree} {e : IoError} : t.makeParents f.path = (t', .ok ()) →
    t'.write f.path message = .error e → Going f t message (t', .error e)
  | written {t' t'' : FileTree} : t.makeParents f.path = (t', .ok ()) → t'.write f.path message = .ok t'' →
    Going f t message (t'', .ok ())

theorem go_unmade (h : t.makeParents f.path = (t', .error e)) : f.go t message = (t', .error e) := by
  rw [go, h]

theorem go_refused (h : t.makeParents f.path = (t', .ok ())) (hw : t'.write f.path message = .error e) :
    f.go t message = (t', .error e) := by
  simp only [go, h, hw]

theorem go_written {t'' : FileTree} (h : t.makeParents f.path = (t', .ok ())) (hw : t'.write f.path message = .ok t'') :
    f.go t message = (t'', .ok ()) := by
  simp only [go, h, hw]

theorem going (f : SignalFile) (t : FileTree) (message : String) : Going f t message (f.go t message) := by
  cases hmade : t.makeParents f.path with
  | mk t' r =>
    cases r with
    | error e =>
      rw [go_unmade hmade]
      exact .unmade hmade
    | ok =>
      cases hwrite : t'.write f.path message with
      | error e =>
        rw [go_refused hmade hwrite]
        exact .refused hmade hwrite
      | ok t'' =>
        rw [go_written hmade hwrite]
        exact .written hmade hwrite

inductive Stopping (f : SignalFile) (t : FileTree) : FileTree × Except IoError Unit → Prop
  | removed {content : Option String} {t' : FileTree} : t.stat f.path = .ok (.file content) →
    t'.sight? = Function.update t.sight? f.path.place none → t'.stat f.path = .error .notFound →
    Stopping f t (t', .ok ())
  | absent : t.stat f.path = .error .notFound → Stopping f t (t, .ok ())
  | directory : t.stat f.path = .ok .directory → Stopping f t (t, .error .isADirectory)
  | lost {e : IoError} : t.stat f.path = .error e → e ≠ .notFound → Stopping f t (t, .error e)

theorem stopping (f : SignalFile) (t : FileTree) : Stopping f t (f.stop t) := by
  unfold stop
  have hr : Removing t f.path (t.remove f.path) := removing t f.path
  generalize t.remove f.path = r at hr
  cases hr with
  | removed hstat _ hnew hgone => exact .removed hstat hnew hgone
  | directory hstat => exact .directory hstat
  | @lost e hstat =>
    by_cases he : e = .notFound
    · subst he
      exact .absent hstat
    · cases e <;> first | exact absurd rfl he | exact .lost hstat he

/-! ### The law -/

/-- Away from the file everything stays, and all that comes in are directories above it. -/
structure Apart (f : SignalFile) (t t' : FileTree) : Prop where
  kept : ∀ q s, q ≠ f.path.place → t.sight? q = some s → t'.sight? q = some s
  fresh : ∀ q s, q ≠ f.path.place → t'.sight? q = some s →
    t.sight? q = some s ∨ s = .directory ∧ ∃ p ∈ f.path.ancestors, q = p.place

theorem Apart.refl (f : SignalFile) (t : FileTree) : Apart f t t :=
  ⟨fun _ _ _ h => h, fun _ _ _ h => Or.inl h⟩

theorem Apart.trans {t'' : FileTree} (h : Apart f t t') (h' : Apart f t' t'') : Apart f t t'' :=
  ⟨fun q s hq hs => h'.kept q s hq (h.kept q s hq hs),
    fun q s hq hs => (h'.fresh q s hq hs).elim (h.fresh q s hq) Or.inr⟩

theorem Apart.of_grows (h : Grows f.path.ancestors t t') : Apart f t t' :=
  ⟨fun q s _ => h.kept q s, fun q s _ => h.fresh q s⟩

theorem Apart.of_update {s : Option Sight} (h : t'.sight? = Function.update t.sight? f.path.place s) :
    Apart f t t' := by
  refine ⟨fun q s hq hs => ?_, fun q s hq hs => Or.inl ?_⟩
  · rw [h, Function.update_of_ne hq]
    exact hs
  · rw [h, Function.update_of_ne hq] at hs
    exact hs

/-- The same is found at the file, or nothing. Only steps up in its path can come to lead to a directory where nothing
was found. -/
def Untouched (f : SignalFile) (t t' : FileTree) : Prop :=
  (t'.stat f.path).toOption = (t.stat f.path).toOption ∨
    ".." ∈ f.path.names ∧ (t.stat f.path).toOption = none ∧ t'.stat f.path = .ok .directory

theorem Untouched.of_grows (h : Grows f.path.ancestors t t')
    (hfile : ∀ content, t'.stat f.path ≠ .ok (.file content)) : Untouched f t t' := by
  have hthere : ∀ s, t.stat f.path = .ok s → t'.stat f.path = .ok s := fun s hs =>
    stat_mono h.kept.directories hs (h.kept _ _ (sight?_of_stat hs))
  cases hbefore : t.stat f.path with
  | ok s => exact Or.inl (by rw [hthere s hbefore, hbefore])
  | error e =>
    cases hafter : t'.stat f.path with
    | error e' => exact Or.inl (by rw [hbefore, hafter]; rfl)
    | ok s =>
      cases s with
      | file content => exact absurd hafter (hfile content)
      | directory =>
        refine Or.inr ⟨Decidable.byContradiction fun hup => ?_, by rw [hbefore]; rfl, hafter⟩
        -- A directory that was not there before is one above the file, so it lies elsewhere.
        obtain hseen | ⟨-, p, hp, hplace⟩ := h.fresh _ _ (sight?_of_stat hafter)
        · simp [stat_of_sight? hup hafter hseen] at hbefore
        · exact place_of_parent_ne hup hp hplace.symm

def shown : Decision → Except IoError Sight
  | .go message => .ok (.file (some message))
  | .stop _ => .error .notFound

structure Lawful (f : SignalFile) (t : FileTree) (d : Decision) (t' : FileTree) (r : Except IoError Unit) : Prop where
  done : r = .ok () → t'.stat f.path = shown d
  /-- Stopping succeeds if nothing is found. If the path cannot be looked up, that is the result. -/
  absent : ∀ message e, d = .stop message → t.stat f.path = .error e →
    t' = t ∧ r = if e = .notFound then .ok () else .error e
  /-- Repeated at once, the call leaves the tree and ends alike. -/
  again : ∃ r', f.call t' d = (t', r') ∧
    (r' = r ∨ ".." ∈ f.path.names ∧ r = .error .alreadyExists ∧ r' = .error .notADirectory)
  failed : ∀ e, r = .error e → Untouched f t t'
  apart : Apart f t t'
  /-- Stopping makes nothing. -/
  bare : ∀ message q s, d = .stop message → t'.sight? q = some s → t.sight? q = some s

theorem go_lawful (f : SignalFile) (t : FileTree) (message : String) :
    Lawful f t (.go message) (f.go t message).1 (f.go t message).2 := by
  have hg := going f t message
  generalize f.go t message = after at hg
  have habsent : ∀ (m : String) (e : IoError), Decision.go message = .stop m → t.stat f.path = .error e →
      after.1 = t ∧ after.2 = if e = .notFound then .ok () else .error e := fun _ _ h => by simp at h
  have hbare : ∀ (m : String) (q : Place) (s : Sight), Decision.go message = .stop m → after.1.sight? q = some s →
      t.sight? q = some s := fun _ _ _ h => by simp at h
  cases hg with
  | @unmade t' e hmade =>
    have hgrows : Grows f.path.ancestors t t' := makeAll_grows (parents_way f) hmade
    obtain ⟨e', hagain, halike, hsame⟩ := makeAll_repeated (parents_way f) hmade
    obtain ⟨_, hlost, _⟩ := makeAll_lost (parents_way f) hmade
    have hfile : ∀ content, t'.stat f.path ≠ .ok (.file content) := fun content hfound => by
      obtain ⟨q, hq⟩ := reached_of_found hfound
      simp [hq] at hlost
    refine ⟨by simp, habsent, ⟨.error e', go_unmade hagain, ?_⟩, fun _ _ => .of_grows hgrows hfile, .of_grows hgrows,
      hbare⟩
    by_cases hup : ".." ∈ f.path.names
    · exact halike.imp (congrArg Except.error) fun ⟨he, he'⟩ =>
        ⟨hup, congrArg Except.error he, congrArg Except.error he'⟩
    · exact Or.inl (congrArg Except.error (hsame (parents_forward hup)))
  | @refused t' e hmade hwrite =>
    have hgrows : Grows f.path.ancestors t t' := makeAll_grows (parents_way f) hmade
    obtain ⟨q, hq⟩ := makeAll_reached (parents_way f) hmade
    have hthere : t'.makeParents f.path = (t', .ok ()) := makeAll_there (parents_way f) hq
    have hs : Storing t' f.path (some message) (t'.write f.path message) := storing t' f.path (some message)
    rw [hwrite] at hs
    cases hs with
    | failed hfile =>
      exact ⟨by simp, habsent, ⟨.error e, go_refused hthere hwrite, Or.inl rfl⟩, fun _ _ => .of_grows hgrows hfile,
        .of_grows hgrows, hbare⟩
  | @written t' t'' hmade hwrite =>
    have hgrows : Grows f.path.ancestors t t' := makeAll_grows (parents_way f) hmade
    obtain ⟨q, hq⟩ := makeAll_reached (parents_way f) hmade
    have hs : Storing t' f.path (some message) (t'.write f.path message) := storing t' f.path (some message)
    rw [hwrite] at hs
    cases hs with
    | stored hold hnew hstat hstored =>
      have hkeeps : KeepsDirectories t'.sight? t''.sight? := hnew ▸ .update hold _
      obtain ⟨q', hq'⟩ := reached_mono hkeeps hq
      have hthere : t''.makeParents f.path = (t'', .ok ()) := makeAll_there (parents_way f) hq'
      exact ⟨fun _ => hstat, habsent, ⟨.ok (), go_written hthere hstored, Or.inl rfl⟩, by simp,
        (Apart.of_grows hgrows).trans (.of_update hnew), hbare⟩

theorem stop_lawful (f : SignalFile) (t : FileTree) (message : String) :
    Lawful f t (.stop message) (f.stop t).1 (f.stop t).2 := by
  have hs := stopping f t
  have hagain : ∀ {r : Except IoError Unit}, f.stop t = (t, r) → ∃ r', f.call t (.stop message) = (t, r') ∧
      (r' = r ∨ ".." ∈ f.path.names ∧ r = .error .alreadyExists ∧ r' = .error .notADirectory) :=
    fun h => ⟨_, h, Or.inl rfl⟩
  generalize hstop : f.stop t = after at hs
  cases hs with
  | @removed content t' hstat hnew hgone =>
    have hagain' : f.stop t' = (t', .ok ()) := by
      have hs := stopping f t'
      generalize f.stop t' = after at hs
      cases hs with
      | absent => rfl
      | removed hfile | directory hfile => simp [hgone] at hfile
      | lost hlost he => exact absurd (Except.error.inj (hlost.symm.trans hgone)) he
    refine ⟨fun _ => hgone, by simp [hstat], ⟨.ok (), hagain', Or.inl rfl⟩, by simp, .of_update hnew, ?_⟩
    intro m q s _ hseen
    have hq : q ≠ f.path.place := fun hq => by simp [hnew, hq] at hseen
    rwa [hnew, Function.update_of_ne hq] at hseen
  | absent hstat =>
    refine ⟨fun _ => hstat, fun m e _ he => ?_, hagain hstop, by simp, .refl f t, fun _ _ _ _ h => h⟩
    exact ⟨rfl, (if_pos (Except.error.inj (he.symm.trans hstat))).symm⟩
  | directory hstat =>
    exact ⟨by simp, by simp [hstat], hagain hstop, fun _ _ => Or.inl rfl, .refl f t,
      fun _ _ _ _ h => h⟩
  | @lost e hstat he =>
    refine ⟨by simp, fun m e' _ he' => ?_, hagain hstop, fun _ _ => Or.inl rfl, .refl f t,
      fun _ _ _ _ h => h⟩
    obtain rfl := Except.error.inj (he'.symm.trans hstat)
    exact ⟨rfl, (if_neg he).symm⟩

theorem call_lawful (f : SignalFile) (t : FileTree) (d : Decision) :
    Lawful f t d (f.call t d).1 (f.call t d).2 := by
  cases d with
  | go message => exact go_lawful f t message
  | stop message => exact stop_lawful f t message

def after (f : SignalFile) (t : FileTree) (calls : List Decision) : FileTree :=
  calls.foldl (fun t d => (f.call t d).1) t

theorem after_apart (f : SignalFile) (t : FileTree) (calls : List Decision) : Apart f t (f.after t calls) := by
  induction calls generalizing t with
  | nil => exact .refl f t
  | cons d calls ih => exact (call_lawful f t d).apart.trans (ih (f.call t d).1)

/-- On any tree and after any calls, every call keeps to the law, and away from the file no call has changed or removed
anything. -/
theorem calls_lawful (f : SignalFile) (t : FileTree) (calls : List Decision) :
    Apart f t (f.after t calls) ∧
      ∀ d, Lawful f (f.after t calls) d (f.call (f.after t calls) d).1 (f.call (f.after t calls) d).2 :=
  ⟨after_apart f t calls, fun d => call_lawful f (f.after t calls) d⟩

def obstacle : FileTree := ⟨[("f", .file (some "text"))]⟩

/-- Below a file nothing is there, and stopping fails all the same. A path that steps up can fail otherwise when the call
is repeated, and can lead to a directory that the failed call has made. -/
theorem calls_obstructed :
    (obstacle.exists (.ofString "f/x") = false ∧
      (SignalFile.stop ⟨.ofString "f/x"⟩ obstacle).2 = .error .notADirectory) ∧
    ((SignalFile.go ⟨.ofString "d/../f/x/y"⟩ obstacle "m").2 = .error .alreadyExists ∧
      (SignalFile.go ⟨.ofString "d/../f/x/y"⟩ (SignalFile.go ⟨.ofString "d/../f/x/y"⟩ obstacle "m").1 "m").2 =
        .error .notADirectory) ∧
    obstacle.exists (.ofString "e/../e") = false ∧
      (SignalFile.go ⟨.ofString "e/../e"⟩ obstacle "m").2 = .error .isADirectory ∧
      (SignalFile.go ⟨.ofString "e/../e"⟩ obstacle "m").1.exists (.ofString "e/../e") = true :=
  ⟨⟨rfl, rfl⟩, ⟨rfl, rfl⟩, rfl, rfl, rfl⟩

end HealthSignal.SignalFile
