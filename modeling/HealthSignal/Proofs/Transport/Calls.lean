import HealthSignal.Proofs.Transport.Lookup

/-! What the file calls come to, by what is found at their path. Each of them changes what is seen at the place of the
path, or nothing. -/
namespace HealthSignal.FileTree

variable {t t' : FileTree} {p : Path} {dir : Place} {name : String} {inner : Entries} {content : Option String}

/-- After the change of an entry that is no directory, its path still leads to it. -/
theorem stat_update {s : Option Sight} (hspot : spot t.sight? p = .ok (.entry dir name))
    (hold : t.sight? (dir ++ [name]) ≠ some .directory)
    (hnew : t'.sight? = Function.update t.sight? (dir ++ [name]) s) :
    spot t'.sight? p = .ok (.entry dir name) ∧ t'.sight? (dir ++ [name]) = s :=
  ⟨spot_mono (hnew ▸ .update hold s) hspot, by rw [hnew, Function.update_self]⟩

inductive Making (t : FileTree) (p : Path) : Except IoError FileTree → Prop
  | made {t' : FileTree} : t.stat p = .error .notFound → t.sight? p.place = none →
    t'.sight? = Function.update t.sight? p.place (some .directory) → t'.stat p = .ok .directory →
    Making t p (.ok t')
  | found {s : Sight} : t.stat p = .ok s → Making t p (.error .alreadyExists)
  | lost {e : IoError} : t.stat p = .error e → spot t.sight? p = .error e → Making t p (.error e)

theorem making (hslash : p.ending ≠ .slash) : Making t p (t.makeDirectory p) := by
  unfold makeDirectory
  have hf := finding t p
  generalize t.locate p = target, hstat : t.stat p = seen at hf ⊢
  cases hf with
  | lost hspot => exact .lost hstat hspot
  | dots | below | file => exact .found hstat
  | slashed _ _ _ h => exact absurd h hslash
  | @missing dir inner name hspot hdir hn =>
    have hplace : dir ++ [name] = p.place := spot_place hspot
    have hnone : t.sight? (dir ++ [name]) = none := by rw [sight?, node?_concat hdir, hn]; rfl
    have hnew : (t.put dir name (.directory [])).sight? = _ := sight?_put hdir (by simp [hn]) Node.leaf_empty
    obtain ⟨hspot', hseen⟩ := stat_update hspot (by simp [hnone]) hnew
    refine .made hstat (hplace ▸ hnone) (hplace ▸ hnew) ?_
    rw [stat_eq, hspot', Except.bind, found, hseen]
    rfl

inductive Storing (t : FileTree) (p : Path) (content : Option String) : Except IoError FileTree → Prop
  | stored {t' : FileTree} : t.sight? p.place ≠ some .directory →
    t'.sight? = Function.update t.sight? p.place (some (.file content)) → t'.stat p = .ok (.file content) →
    t'.store p content = .ok t' → Storing t p content (.ok t')
  | failed {e : IoError} : (∀ content, t.stat p ≠ .ok (.file content)) → Storing t p content (.error e)

theorem store_entry (hspot : spot t.sight? p = .ok (.entry dir name)) (hdir : t.node? dir = some (.directory inner))
    (hn : ∀ n, inner.lookup name = some n → ∃ content, n = .file content) (hslash : p.ending ≠ .slash) :
    t.store p content = .ok (t.put dir name (.file content)) := by
  have hl := leads t p
  rw [hspot] at hl
  unfold store
  generalize t.locate p = target at hl
  cases hl with
  | @entry _ inner' _ hdir' =>
    obtain rfl := Node.directory.inj (Option.some.inj (hdir.symm.trans hdir'))
    cases hentry : inner.lookup name with
    | none => exact if_neg hslash
    | some n =>
      obtain ⟨old, rfl⟩ := hn n hentry
      exact if_neg hslash

theorem stored_entry (hspot : spot t.sight? p = .ok (.entry dir name)) (hdir : t.node? dir = some (.directory inner))
    (hn : ∀ n, inner.lookup name = some n → ∃ content, n = .file content) (hslash : p.ending ≠ .slash) :
    Storing t p content (t.store p content) := by
  have hplace : dir ++ [name] = p.place := spot_place hspot
  have hold : t.sight? (dir ++ [name]) ≠ some .directory := by
    rw [sight?, node?_concat hdir]
    intro hdirectory
    obtain ⟨n, hentry, hn'⟩ := Option.map_eq_some_iff.mp hdirectory
    obtain ⟨old, rfl⟩ := hn n hentry
    simp [Node.sight] at hn'
  have hleaf : ∀ n, inner.lookup name = some n → n.Leaf := fun n hentry => by
    obtain ⟨old, rfl⟩ := hn n hentry
    exact Node.leaf_file old
  have hnew : (t.put dir name (.file content)).sight? = _ := sight?_put hdir hleaf (Node.leaf_file content)
  obtain ⟨hspot', hseen⟩ := stat_update hspot hold hnew
  rw [store_entry hspot hdir hn hslash]
  refine .stored (hplace ▸ hold) (hplace ▸ hnew) ?_ ?_
  · rw [stat_eq, hspot', Except.bind, found, hseen]
    exact if_neg hslash
  · -- The file that was written is found again and replaced by itself.
    obtain ⟨inner', hdir'⟩ : ∃ inner', (t.put dir name (.file content)).node? dir = some (.directory inner') := by
      have hbelow := find?_modifyAt_below (fun entries => (name, Node.file content) :: entries.filter (·.1 ≠ name)) hdir []
      rw [List.append_nil] at hbelow
      exact ⟨_, hbelow⟩
    rw [store_entry hspot' hdir' ?_ hslash, put_put]
    intro n hentry
    rw [sight?, node?_concat hdir', hentry] at hseen
    cases n with
    | file old => exact ⟨old, rfl⟩
    | directory more => simp [Node.sight] at hseen

theorem storing (t : FileTree) (p : Path) (content : Option String) : Storing t p content (t.store p content) := by
  have hf := finding t p
  generalize htarget : t.locate p = target, hstat : t.stat p = seen at hf
  cases hf with
  | lost | dots | below =>
    rw [store, htarget]
    exact .failed (by simp [hstat])
  | slashed _ _ _ hslash =>
    rw [store, htarget]
    exact (congrArg (Storing t p content) (if_pos hslash)).mpr (.failed (by simp [hstat]))
  | @missing dir inner name hspot hdir hn =>
    by_cases hslash : p.ending = .slash
    · rw [store, htarget]
      exact (congrArg (Storing t p content) (if_pos hslash)).mpr (.failed (by simp [hstat]))
    · exact stored_entry hspot hdir (by simp [hn]) hslash
  | @file dir inner name old hspot hdir hn hslash =>
    exact stored_entry hspot hdir (by simp [hn]) hslash

inductive Removing (t : FileTree) (p : Path) : Except IoError FileTree → Prop
  | removed {content : Option String} {t' : FileTree} : t.stat p = .ok (.file content) →
    t.sight? p.place = some (.file content) → t'.sight? = Function.update t.sight? p.place none →
    t'.stat p = .error .notFound → Removing t p (.ok t')
  | directory : t.stat p = .ok .directory → Removing t p (.error .isADirectory)
  | lost {e : IoError} : t.stat p = .error e → Removing t p (.error e)

theorem removing (t : FileTree) (p : Path) : Removing t p (t.remove p) := by
  unfold remove
  have hf := finding t p
  generalize t.locate p = target, hstat : t.stat p = seen at hf ⊢
  cases hf with
  | lost | missing => exact .lost hstat
  | dots | below => exact .directory hstat
  | slashed _ _ _ hslash => exact (congrArg (Removing t p) (if_pos hslash)).mpr (.lost hstat)
  | @file dir inner name old hspot hdir hn hslash =>
    refine (congrArg (Removing t p) (if_neg hslash)).mpr ?_
    have hplace : dir ++ [name] = p.place := spot_place hspot
    have hseen : t.sight? (dir ++ [name]) = some (.file old) := by rw [sight?, node?_concat hdir, hn]; rfl
    have hnew : (t.delete dir name).sight? = _ :=
      sight?_delete hdir fun n hentry => Option.some.inj (hn.symm.trans hentry) ▸ Node.leaf_file old
    obtain ⟨hspot', hgone⟩ := stat_update hspot (by simp [hseen]) hnew
    refine .removed hstat (hplace ▸ hseen) (hplace ▸ hnew) ?_
    rw [stat_eq, hspot', Except.bind, found, hgone]

end HealthSignal.FileTree
