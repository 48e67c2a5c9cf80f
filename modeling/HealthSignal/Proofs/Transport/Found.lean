import HealthSignal.Proofs.Transport.Lookup
import Mathlib.Data.List.Induction

/-! What is found at a path is seen at its place, and what is seen there is found, while the directories on the way
stay or if the path has no steps up. -/
namespace HealthSignal.FileTree

variable {t t' : FileTree} {p : Path} {q r : Place} {names : List String} {s : Sight}

theorem foldl_onward (hup : ".." ∉ names) (q : Place) : names.foldl onward q = q ++ names := by
  induction names generalizing q with
  | nil => exact (List.append_nil q).symm
  | cons name names ih =>
    have hname : name ≠ ".." := fun h => hup (h ▸ List.mem_cons_self)
    rw [List.foldl_cons, onward, if_neg hname, ih (mt (List.mem_cons_of_mem name) hup), List.append_assoc]
    rfl

theorem place_eq_names (hup : ".." ∉ p.names) : p.place = p.names := foldl_onward hup []

theorem sight?_dropLast (h : t.sight? q = some .directory) : t.sight? q.dropLast = some .directory := by
  cases q using List.reverseRecOn with
  | nil => exact h
  | append_singleton dir name =>
    rw [List.dropLast_concat]
    exact sight?_of_concat h

theorem follow_directory (hq : t.sight? q = some .directory) (h : follow t.sight? q names = .ok r) :
    t.sight? r = some .directory := by
  induction names generalizing q with
  | nil => exact Except.ok.inj h ▸ hq
  | cons name names ih =>
    rw [follow_cons] at h
    have hs := entering t.sight? q name
    generalize enter t.sight? q name = next at h hs
    cases hs with
    | up => exact ih (sight?_dropLast hq) h
    | down _ _ hsee => exact ih hsee h
    | long | blocked | missing => simp [Except.bind] at h

/-- What is found at a path is seen at its place. -/
theorem sight?_of_stat (h : t.stat p = .ok s) : t.sight? p.place = some s := by
  rw [stat_eq] at h
  cases hspot : spot t.sight? p with
  | error e => simp [hspot, Except.bind] at h
  | ok x =>
    rw [hspot, Except.bind] at h
    rw [← spot_place hspot]
    cases x with
    | directory q =>
      have hs := spotting t.sight? p
      rw [hspot] at hs
      cases hs with
      | dotted _ _ hf => exact Except.ok.inj h ▸ follow_directory (sight?_nil t) hf
    | entry dir name =>
      rw [found] at h
      rw [Spot.place]
      cases hsee : t.sight? (dir ++ [name]) with
      | none => simp [hsee] at h
      | some seen =>
        cases seen with
        | directory => simpa [hsee] using h
        | file content =>
          by_cases hslash : p.ending = .slash
          · simp [hsee, hslash] at h
          · simpa [hsee, hslash] using h

/-- Names that led to a directory lead there wherever it is. -/
theorem follow_of_sight? (hup : ".." ∉ names) (h : follow t'.sight? [] names = .ok q)
    (hq : t.sight? q = some .directory) : follow t.sight? [] names = .ok q := by
  induction names using List.reverseRecOn generalizing q with
  | nil => exact h
  | append_singleton names name ih =>
    rw [follow_concat] at h ⊢
    cases hf : follow t'.sight? [] names with
    | error e => simp [hf, Except.bind] at h
    | ok dir =>
      rw [hf, Except.bind] at h
      have hs := entering t'.sight? dir name
      rw [h] at hs
      cases hs with
      | up hname => simp [hname] at hup
      | down hname hcheck =>
        rw [ih (fun hmem => hup (List.mem_append_left _ hmem)) hf (sight?_of_concat hq), Except.bind]
        rw [enter, if_neg hname, hcheck, hq]
        rfl

theorem exists_spot (h : t.stat p = .ok s) : ∃ x, spot t.sight? p = .ok x := by
  rw [stat_eq] at h
  cases hspot : spot t.sight? p with
  | error e => simp [hspot, Except.bind] at h
  | ok x => exact ⟨x, rfl⟩

theorem stat_congr {x : Spot} (hspot : spot t.sight? p = .ok x) (hspot' : spot t'.sight? p = .ok x)
    (hs : t'.sight? p.place = t.sight? p.place) : t'.stat p = t.stat p := by
  rw [stat_eq, stat_eq, hspot, hspot', Except.bind, Except.bind]
  cases x with
  | directory q => rfl
  | entry dir name =>
    rw [← spot_place hspot, Spot.place] at hs
    rw [found, found, hs]

/-- What is still seen is still found if no directory has gone. -/
theorem stat_mono (hk : KeepsDirectories t.sight? t'.sight?) (h : t.stat p = .ok s)
    (hs : t'.sight? p.place = some s) : t'.stat p = .ok s := by
  obtain ⟨x, hspot⟩ := exists_spot h
  rw [stat_congr hspot (spot_mono hk hspot) (hs.trans (sight?_of_stat h).symm), h]

/-- What is found at a path without steps up is found there wherever it is seen. -/
theorem stat_of_sight? (hup : ".." ∉ p.names) (h : t'.stat p = .ok s) (hs : t.sight? p.place = some s) :
    t.stat p = .ok s := by
  obtain ⟨x, hspot⟩ := exists_spot h
  have hplace : x.place = p.place := spot_place hspot
  rw [stat_congr hspot ?_ (hs.trans (sight?_of_stat h).symm), h]
  have hspots := spotting t'.sight? p
  rw [hspot] at hspots
  cases hspots with
  | @dotted q hcheck hdots hf =>
    obtain rfl : Sight.directory = s := by
      rw [stat_eq, hspot] at h
      exact Except.ok.inj h
    rw [← hplace, Spot.place] at hs
    rw [spot_dotted hcheck hdots, follow_of_sight? hup hf hs]
    rfl
  | @entry names name dir hcheck hnames hdot hname hf hlong =>
    have hup' : ".." ∉ names := fun hmem => hup (hnames ▸ List.mem_append_left _ hmem)
    rw [← hplace, Spot.place] at hs
    rw [spot_named hcheck hnames hdot hname, follow_of_sight? hup' hf (sight?_of_concat hs), hlong]
    rfl

end HealthSignal.FileTree
