import HealthSignal.Proofs.Transport.Calls
import HealthSignal.Proofs.Transport.Found
import HealthSignal.Proofs.Transport.Way

/-! Making the directories above a path. What was there stays, and only directories on the way come in. An attempt that
failed fails again and changes nothing more. -/
namespace HealthSignal

def Sight.enter (q : Place) : Sight → Except IoError Place
  | .directory => .ok q
  | .file _ => .error .notADirectory

namespace FileTree
variable {t t' : FileTree} {p : Path} {ps above : List Path} {q r : Place} {names : List String} {name : String}
  {e : IoError} {s : Sight}

/-! ### Directories seen on the way -/

theorem spot_of_unled {see : Place → Option Sight} (hnames : p.names = names ++ [name]) (hend : p.ending = .name)
    (hcheck : p.check = .ok ()) (h : follow see [] names = .error e) : spot see p = .error e := by
  have hdot : p.ending ≠ .dot := by simp [hend]
  by_cases hup : name = ".."
  · rw [spot_dotted hcheck (Or.inr (Or.inr ⟨names, hup ▸ hnames⟩)), hnames, follow_concat, h]
    rfl
  · rw [spot_named hcheck hnames hdot hup, h]
    rfl

/-- A path that ends with a name is found as far as its names can be followed. -/
theorem follow_names (hnames : p.names = names ++ [name]) (hend : p.ending = .name) (hcheck : p.check = .ok ()) :
    follow t.sight? [] p.names = (t.stat p).bind (Sight.enter p.place) := by
  have hdot : p.ending ≠ .dot := by simp [hend]
  have hslash : p.ending ≠ .slash := by simp [hend]
  rw [stat_eq]
  by_cases hup : name = ".."
  · rw [spot_dotted hcheck (Or.inr (Or.inr ⟨names, hup ▸ hnames⟩))]
    cases hf : follow t.sight? [] p.names with
    | error e => rfl
    | ok q => rw [follow_ok hf]; rfl
  · rw [spot_named hcheck hnames hdot hup, hnames, follow_concat]
    cases hf : follow t.sight? [] names with
    | error e => rfl
    | ok dir =>
      have hplace : p.place = dir ++ [name] := by
        rw [Path.place, hnames, List.foldl_append, ← follow_ok hf]
        exact if_neg hup
      have hs := entering t.sight? dir name
      show enter t.sight? dir name = _
      generalize enter t.sight? dir name = next at hs
      cases hs with
      | up h => exact absurd h hup
      | long _ hname =>
        rw [hname]
        rfl
      | down _ hname hsee =>
        rw [hname, hplace]
        simp [Except.bind, found, hsee, Sight.enter]
      | blocked _ hname hsee =>
        rw [hname]
        simp [Except.bind, found, hsee, hslash, Sight.enter]
      | missing _ hname hsee =>
        rw [hname]
        simp [Except.bind, found, hsee]

def reached (t : FileTree) : List Path → Except IoError Place
  | [] => .ok []
  | p :: _ => (t.stat p).bind (Sight.enter p.place)

theorem reached_of_lost (above : List Path) (h : t.stat p = .error e) : t.reached (p :: above) = .error e := by
  rw [reached, h]
  rfl

theorem stat_of_reached (h : t.reached (p :: above) = .ok q) : t.stat p = .ok .directory := by
  rw [reached] at h
  cases hstat : t.stat p with
  | error e => simp [hstat, Except.bind] at h
  | ok s =>
    cases s with
    | directory => rfl
    | file content => simp [hstat, Except.bind, Sight.enter] at h

theorem reached_of_stat (above : List Path) (h : t.stat p = .ok .directory) : t.reached (p :: above) = .ok p.place := by
  rw [reached, h]
  rfl

/-- What is reached is reached as long as no directory goes. -/
theorem reached_mono (hk : KeepsDirectories t.sight? t'.sight?) (h : t.reached ps = .ok q) :
    ∃ q, t'.reached ps = .ok q := by
  cases ps with
  | nil => exact ⟨[], rfl⟩
  | cons p above =>
    have hstat := stat_of_reached h
    exact ⟨_, reached_of_stat above (stat_mono hk hstat (hk _ (sight?_of_stat hstat)))⟩

theorem follow_way (hw : Path.Way ps names) (hcheck : ∀ p ∈ ps, p.check = .ok ()) :
    follow t.sight? [] names = t.reached ps := by
  cases hw with
  | nil => rfl
  | @cons p above names name hext hw =>
    rw [← hext.names]
    exact follow_names hext.names hext.ending (hcheck p List.mem_cons_self)

/-- The way to what is found is there. -/
theorem reached_of_found (h : t.stat p = .ok s) : ∃ q, t.reached p.ancestors = .ok q := by
  have hw : Path.Way p.ancestors p.names.dropLast := Path.way_ancestors p
  have hway : p.check = .ok () → follow t.sight? [] p.names.dropLast = t.reached p.ancestors := fun hcheck =>
    follow_way hw (Path.check_ancestors hcheck)
  obtain ⟨x, hspot⟩ := exists_spot h
  have hs := spotting t.sight? p
  rw [hspot] at hs
  cases hs with
  | entry hcheck hnames _ _ hf =>
    rw [← hway hcheck, hnames, List.dropLast_concat]
    exact ⟨_, hf⟩
  | @dotted q hcheck _ hf =>
    rw [← hway hcheck]
    generalize p.names = names at hf
    cases names using List.reverseRecOn with
    | nil => exact ⟨_, rfl⟩
    | append_singleton names name =>
      rw [follow_concat] at hf
      rw [List.dropLast_concat]
      cases hnames : follow t.sight? [] names with
      | ok dir => exact ⟨dir, rfl⟩
      | error e => simp [hnames, Except.bind] at hf

/-! ### One directory -/

theorem makeDirectory_of_lost (h : spot t.sight? p = .error e) :
    t.makeDirectory p = .error e ∧ t.stat p = .error e := by
  unfold makeDirectory
  have hf := finding t p
  generalize t.locate p = target, t.stat p = seen at hf ⊢
  cases hf with
  | lost hspot =>
    obtain rfl := Except.error.inj (hspot.symm.trans h)
    exact ⟨rfl, rfl⟩
  | dots hspot | missing hspot | below hspot | file hspot | slashed hspot => simp [hspot] at h

theorem settle_failed (h : t.stat p ≠ .ok .directory) : t.settle p (.error e) = (t, .error e) := by
  have hnot : t.isDirectory p = false := Bool.eq_false_iff.mpr (mt isDirectory_iff.mp h)
  rw [settle, hnot]
  rfl

inductive Settling (t : FileTree) (p : Path) : FileTree → Except IoError Unit → Prop
  | made {t' : FileTree} : t.stat p = .error .notFound → t.sight? p.place = none →
    t'.sight? = Function.update t.sight? p.place (some .directory) → t'.stat p = .ok .directory →
    Settling t p t' (.ok ())
  | there : t.stat p = .ok .directory → Settling t p t (.ok ())
  | file {content : Option String} : t.stat p = .ok (.file content) → Settling t p t (.error .alreadyExists)
  | lost {e : IoError} : t.stat p = .error e → spot t.sight? p = .error e → Settling t p t (.error e)

theorem settling {r : Except IoError Unit} (hslash : p.ending ≠ .slash)
    (h : t.settle p (t.makeDirectory p) = (t', r)) : Settling t p t' r := by
  have hm : Making t p (t.makeDirectory p) := making hslash
  generalize t.makeDirectory p = made at h hm
  cases hm with
  | made hstat hnone hnew hthere =>
    obtain ⟨rfl, rfl⟩ := Prod.mk.inj h
    exact .made hstat hnone hnew hthere
  | @found s hstat =>
    cases s with
    | directory =>
      rw [settle, isDirectory_iff.mpr hstat] at h
      obtain ⟨rfl, rfl⟩ := Prod.mk.inj h
      exact .there hstat
    | file content =>
      rw [settle_failed (by simp [hstat])] at h
      obtain ⟨rfl, rfl⟩ := Prod.mk.inj h
      exact .file hstat
  | lost hstat hspot =>
    rw [settle_failed (by simp [hstat])] at h
    obtain ⟨rfl, rfl⟩ := Prod.mk.inj h
    exact .lost hstat hspot

/-! ### All that are missing -/

inductive MakingAll (t : FileTree) (p : Path) (above : List Path) : FileTree → Except IoError Unit → Prop
  | once {t' : FileTree} {r : Except IoError Unit} : t.makeDirectory p ≠ .error .notFound →
    t.settle p (t.makeDirectory p) = (t', r) → MakingAll t p above t' r
  | below {t₁ t' : FileTree} {r : Except IoError Unit} : t.makeDirectory p = .error .notFound →
    t.makeAll above = (t₁, .ok ()) → t₁.settle p (t₁.makeDirectory p) = (t', r) → MakingAll t p above t' r
  | failed {t' : FileTree} {e : IoError} : t.makeDirectory p = .error .notFound →
    t.makeAll above = (t', .error e) → MakingAll t p above t' (.error e)

theorem makeAll_once (h : t.makeDirectory p ≠ .error .notFound) :
    t.makeAll (p :: above) = t.settle p (t.makeDirectory p) := by
  rw [makeAll]
  cases hm : t.makeDirectory p with
  | ok t' => rfl
  | error e => cases e <;> first | rfl | exact absurd hm h

theorem makeAll_below (h : t.makeDirectory p = .error .notFound) (ha : t.makeAll above = (t', .ok ())) :
    t.makeAll (p :: above) = t'.settle p (t'.makeDirectory p) := by
  rw [makeAll, h]
  simp only [ha]

theorem makeAll_failed (h : t.makeDirectory p = .error .notFound) (ha : t.makeAll above = (t', .error e)) :
    t.makeAll (p :: above) = (t', .error e) := by
  rw [makeAll, h]
  simp only [ha]

theorem makingAll {r : Except IoError Unit} (h : t.makeAll (p :: above) = (t', r)) : MakingAll t p above t' r := by
  by_cases hmake : t.makeDirectory p = .error .notFound
  · cases ha : t.makeAll above with
    | mk t₁ result =>
      cases result with
      | ok => exact .below hmake ha ((makeAll_below hmake ha).symm.trans h)
      | error e =>
        obtain ⟨rfl, rfl⟩ := Prod.mk.inj ((makeAll_failed hmake ha).symm.trans h)
        exact .failed hmake ha
  · exact .once hmake ((makeAll_once hmake).symm.trans h)

/-- Everything is still there, and what is new are directories that paths of `ps` lead to. -/
structure Grows (ps : List Path) (t t' : FileTree) : Prop where
  kept : KeepsAll t.sight? t'.sight?
  fresh : ∀ q s, t'.sight? q = some s → t.sight? q = some s ∨ s = .directory ∧ ∃ p ∈ ps, q = p.place

theorem Grows.refl (ps : List Path) (t : FileTree) : Grows ps t t :=
  ⟨fun _ _ h => h, fun _ _ h => Or.inl h⟩

theorem Grows.trans {t'' : FileTree} (h : Grows ps t t') (h' : Grows ps t' t'') : Grows ps t t'' :=
  ⟨fun q s hs => h'.kept q s (h.kept q s hs), fun q s hs => (h'.fresh q s hs).elim (h.fresh q s) Or.inr⟩

theorem Grows.mono {more : List Path} (h : Grows ps t t') (hsub : ps ⊆ more) : Grows more t t' :=
  ⟨h.kept, fun q s hs => (h.fresh q s hs).imp_right fun ⟨hd, p, hp, hq⟩ => ⟨hd, p, hsub hp, hq⟩⟩

theorem settle_grows {r : Except IoError Unit} (hslash : p.ending ≠ .slash) (hp : p ∈ ps)
    (h : t.settle p (t.makeDirectory p) = (t', r)) : Grows ps t t' := by
  cases settling hslash h with
  | there | file | lost => exact .refl ps t
  | made _ hnone hnew =>
    refine ⟨hnew ▸ .update hnone _, fun q s hseen => ?_⟩
    by_cases hq : q = p.place
    · rw [hnew, hq, Function.update_self] at hseen
      exact Or.inr ⟨(Option.some.inj hseen).symm, p, hp, hq⟩
    · rw [hnew, Function.update_of_ne hq] at hseen
      exact Or.inl hseen

theorem makeAll_grows {r : Except IoError Unit} (hw : Path.Way ps names) (h : t.makeAll ps = (t', r)) :
    Grows ps t t' := by
  induction hw generalizing t' r with
  | nil => exact (Prod.mk.inj h).1 ▸ .refl [] t
  | @cons p above names name hext hw ih =>
    have hhead : p ∈ p :: above := List.mem_cons_self
    have hsub : above ⊆ p :: above := List.subset_cons_self p above
    cases makingAll h with
    | once _ hsettle => exact settle_grows hext.not_slash hhead hsettle
    | below _ habove hsettle => exact ((ih habove).mono hsub).trans (settle_grows hext.not_slash hhead hsettle)
    | failed _ habove => exact (ih habove).mono hsub

section Way
variable (hw : Path.Way ps names)
include hw

/-- Of a way that is there, nothing is missing. -/
theorem makeAll_there (h : t.reached ps = .ok q) : t.makeAll ps = (t, .ok ()) := by
  cases hw with
  | nil => rfl
  | @cons p above names name hext hw =>
    have hstat : t.stat p = .ok .directory := stat_of_reached h
    have hm : Making t p (t.makeDirectory p) := making hext.not_slash
    have hthere : t.makeDirectory p = .error .alreadyExists := by
      generalize t.makeDirectory p = r at hm
      cases hm with
      | made hmissing | lost hmissing => simp [hstat] at hmissing
      | found => rfl
    rw [makeAll_once (by simp [hthere]), hthere, settle, isDirectory_iff.mpr hstat, if_pos rfl]

theorem makeAll_reached (h : t.makeAll ps = (t', .ok ())) : ∃ q, t'.reached ps = .ok q := by
  cases hw with
  | nil => exact ⟨[], rfl⟩
  | @cons p above names name hext hw =>
    -- Whatever was made before, the longest directory comes last.
    have hlast : ∀ t : FileTree, t.settle p (t.makeDirectory p) = (t', .ok ()) → t'.stat p = .ok .directory :=
      fun t hsettle => by
        cases settling hext.not_slash hsettle with
        | made _ _ _ hthere => exact hthere
        | there hstat => exact hstat
    cases makingAll h with
    | once _ hsettle => exact ⟨p.place, reached_of_stat above (hlast t hsettle)⟩
    | below _ _ hsettle => exact ⟨p.place, reached_of_stat above (hlast _ hsettle)⟩

end Way

/-! ### Failures -/

/-- A path that is missing is one the system takes, and its way is missing. -/
theorem check_of_missing (hext : p.Extends above names name) (h : t.makeDirectory p = .error .notFound) :
    p.check = .ok () ∧ t.reached (p :: above) = .error .notFound := by
  have hm : Making t p (t.makeDirectory p) := making hext.not_slash
  rw [h] at hm
  cases hm with
  | lost hstat hspot =>
    refine ⟨?_, reached_of_lost above hstat⟩
    have hs := spotting t.sight? p
    rw [hspot] at hs
    cases hs with
    | unfit hcheck => exact absurd hcheck hext.taken
    | unled hcheck => exact hcheck

/-- Where the way above is lost, so is the path. -/
theorem lost_of_above (hext : p.Extends above names name) (hw : Path.Way above names) (hcheck : p.check = .ok ())
    (h : t.reached above = .error e) : t.makeDirectory p = .error e ∧ t.stat p = .error e := by
  have hfollow : follow t.sight? [] names = .error e := (follow_way hw (hext.above hcheck)).trans h
  exact makeDirectory_of_lost (spot_of_unled hext.names hext.ending hcheck hfollow)

/-- An error that comes of something in the way, as it shows from above and from below. -/
def Alike (e e' : IoError) : Prop := e' = e ∨ e = .alreadyExists ∧ e' = .notADirectory

theorem settle_lost (hslash : p.ending ≠ .slash) (h : t.settle p (t.makeDirectory p) = (t', .error e)) :
    ∃ e', t'.reached (p :: above) = .error e' ∧ Alike e e' := by
  cases settling hslash h with
  | file hstat => exact ⟨.notADirectory, by rw [reached, hstat]; rfl, Or.inr ⟨rfl, rfl⟩⟩
  | lost hstat => exact ⟨e, reached_of_lost above hstat, Or.inl rfl⟩

/-- After a failure the way is not there, and what was wrong is what is wrong now. -/
theorem makeAll_lost (hw : Path.Way ps names) (h : t.makeAll ps = (t', .error e)) :
    ∃ e', t'.reached ps = .error e' ∧ Alike e e' := by
  induction hw with
  | nil => simp [makeAll] at h
  | @cons p above names name hext hw ih =>
    cases makingAll h with
    | once _ hsettle => exact settle_lost hext.not_slash hsettle
    | below _ _ hsettle => exact settle_lost hext.not_slash hsettle
    | failed hmissing habove =>
      obtain ⟨hcheck, -⟩ := check_of_missing hext hmissing
      obtain ⟨e', hreached, halike⟩ := ih habove
      exact ⟨e', reached_of_lost _ (lost_of_above hext hw hcheck hreached).2, halike⟩

/-- An attempt that did not make a directory has left the tree. -/
theorem settle_same (hslash : p.ending ≠ .slash) (h : t.settle p (t.makeDirectory p) = (t', .error e)) : t' = t := by
  cases settling hslash h <;> rfl

/-- A failed attempt fails again and leaves the tree. The failure is the same one, unless directories above were
missing at first and what is wrong with the way shows from below now. -/
theorem makeAll_again (hw : Path.Way ps names) (h : t.makeAll ps = (t', .error e)) :
    ∃ e', t'.makeAll ps = (t', .error e') ∧
      (e' = e ∨ t.reached ps = .error .notFound ∧ t'.reached ps = .error e') := by
  induction hw with
  | nil => simp [makeAll] at h
  | @cons p above names name hext hw ih =>
    cases makingAll h with
    | once _ hsettle =>
      obtain rfl := settle_same hext.not_slash hsettle
      exact ⟨e, h, Or.inl rfl⟩
    | below _ habove hsettle =>
      obtain rfl := settle_same hext.not_slash hsettle
      refine ⟨e, ?_, Or.inl rfl⟩
      -- What was made above is there now, so only the last attempt is made again.
      by_cases hmake : t'.makeDirectory p = .error .notFound
      · obtain ⟨q, hq⟩ := makeAll_reached hw habove
        rw [makeAll_below hmake (makeAll_there hw hq), hsettle]
      · rw [makeAll_once hmake, hsettle]
    | failed hmissing habove =>
      obtain ⟨hcheck, hfirst⟩ := check_of_missing hext hmissing
      obtain ⟨e', hreached, -⟩ := makeAll_lost hw habove
      obtain ⟨hmake, hstat⟩ := lost_of_above hext hw hcheck hreached
      by_cases he' : e' = .notFound
      · subst he'
        obtain ⟨e', hagain, hsame⟩ := ih habove
        refine ⟨e', makeAll_failed hmake hagain, hsame.imp_right fun ⟨_, hreached'⟩ => ⟨hfirst, ?_⟩⟩
        exact reached_of_lost _ (lost_of_above hext hw hcheck hreached').2
      · refine ⟨e', ?_, Or.inr ⟨hfirst, reached_of_lost _ hstat⟩⟩
        rw [makeAll_once (by simp [hmake, he']), hmake, settle_failed (by simp [hstat])]

/-- Without steps up, nothing can come in the way of a way while it is made. What is wrong with it shows from below at
once. -/
theorem makeAll_shows (hw : Path.Way ps names) (hup : ".." ∉ names) (hfirst : t.reached ps = .error .notFound)
    (h : t.makeAll ps = (t', .error e)) : t'.reached ps = .error e := by
  induction hw with
  | nil => simp [reached] at hfirst
  | @cons p above names name hext hw ih =>
    have hnofile : ∀ content, t.stat p ≠ .ok (.file content) := fun content hfile => by
      simp [reached, hfile, Except.bind, Sight.enter] at hfirst
    cases makingAll h with
    | once _ hsettle =>
      cases settling hext.not_slash hsettle with
      | file hstat => exact absurd hstat (hnofile _)
      | lost hstat => exact reached_of_lost above hstat
    | below _ habove hsettle =>
      cases settling hext.not_slash hsettle with
      | file hstat =>
        -- The file was there before, and so was the way to it.
        obtain hseen | ⟨hdir, -⟩ := (makeAll_grows hw habove).fresh _ _ (sight?_of_stat hstat)
        · exact absurd (stat_of_sight? (hext.names ▸ hup) hstat hseen) (hnofile _)
        · simp at hdir
      | lost hstat => exact reached_of_lost above hstat
    | failed hmissing habove =>
      obtain ⟨hcheck, -⟩ := check_of_missing hext hmissing
      have habove' : t.reached above = .error .notFound := by
        cases hreached : t.reached above with
        | ok q => simp [makeAll_there hw hreached] at habove
        | error e₁ =>
          rw [(lost_of_above hext hw hcheck hreached).1] at hmissing
          exact congrArg Except.error (Except.error.inj hmissing)
      have hup' : ".." ∉ names := fun hmem => hup (List.mem_append_left _ hmem)
      exact reached_of_lost _ (lost_of_above hext hw hcheck (ih hup' habove' habove)).2

/-- A failed attempt fails again and leaves the tree, and if no name steps up, the failure is the same one. -/
theorem makeAll_repeated (hw : Path.Way ps names) (h : t.makeAll ps = (t', .error e)) :
    ∃ e', t'.makeAll ps = (t', .error e') ∧ Alike e e' ∧ (".." ∉ names → e' = e) := by
  obtain ⟨e', hagain, hsame | ⟨hfirst, hreached⟩⟩ := makeAll_again hw h
  · exact ⟨e', hagain, Or.inl hsame, fun _ => hsame⟩
  · refine ⟨e', hagain, ?_, fun hup => ?_⟩
    · obtain ⟨e'', hreached', halike⟩ := makeAll_lost hw h
      exact Except.error.inj (hreached'.symm.trans hreached) ▸ halike
    · exact Except.error.inj (hreached.symm.trans (makeAll_shows hw hup hfirst h))

end FileTree
end HealthSignal
