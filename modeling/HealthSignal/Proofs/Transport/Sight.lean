import HealthSignal.Transport.FileTree
import Mathlib.Logic.Function.Basic

/-! What is to be seen at the places of a tree, and that the change of one entry is seen at its place alone. -/
namespace HealthSignal

inductive Sight
  | file (content : Option String)
  | directory
  deriving DecidableEq

def Node.sight : Node → Sight
  | .file content => .file content
  | .directory _ => .directory

def Node.Leaf (n : Node) : Prop := ∀ name rest, FileTree.find? n (name :: rest) = none

theorem Node.leaf_file (content : Option String) : (Node.file content).Leaf := fun _ _ => rfl

theorem Node.leaf_empty : (Node.directory []).Leaf := fun _ _ => rfl

namespace FileTree
variable {t : FileTree} {entries inner : Entries} {dir q : Place} {name : String}

def sight? (t : FileTree) (q : Place) : Option Sight := (t.node? q).map Node.sight

theorem find?_nil (n : Node) : find? n [] = some n := by
  cases n <;> rfl

theorem find?_append (n : Node) (q rest : Place) : find? n (q ++ rest) = (find? n q).bind (find? · rest) := by
  induction q generalizing n with
  | nil => rw [List.nil_append, find?_nil, Option.bind_some]
  | cons name q ih =>
    cases n with
    | file content => rfl
    | directory entries =>
      rw [List.cons_append, find?, find?]
      cases entries.lookup name with
      | none => rfl
      | some n => exact ih n

theorem node?_concat (hdir : t.node? dir = some (.directory inner)) (name : String) :
    t.node? (dir ++ [name]) = inner.lookup name := by
  rw [node?, find?_append, ← node?, hdir, Option.bind_some, find?]
  cases inner.lookup name with
  | none => rfl
  | some n => rw [Option.bind_some, find?_nil]

theorem sight?_nil (t : FileTree) : t.sight? [] = some .directory := rfl

/-- Entries lie in directories. -/
theorem sight?_of_concat {s : Sight} (h : t.sight? (q ++ [name]) = some s) : t.sight? q = some .directory := by
  rw [sight?, node?, find?_append, ← node?] at h
  rw [sight?]
  cases hn : t.node? q with
  | none => simp [hn] at h
  | some n =>
    cases n with
    | file content => simp [hn, find?] at h
    | directory inner => rfl

theorem lookup_filter_ne (name k : String) (entries : Entries) :
    (entries.filter (·.1 ≠ name)).lookup k = if k = name then none else entries.lookup k := by
  induction entries with
  | nil => simp
  | cons entry rest ih =>
    by_cases hentry : entry.1 = name
    · rw [List.filter_cons_of_neg (by simpa using hentry), ih]
      split
      · rfl
      · next hk => rw [List.lookup_cons, beq_eq_false_iff_ne.mpr (hentry ▸ hk)]
    · rw [List.filter_cons_of_pos (by simpa using hentry), List.lookup_cons, List.lookup_cons, ih]
      cases hk : k == entry.1 with
      | false => rfl
      | true =>
        obtain rfl := eq_of_beq hk
        exact (if_neg hentry).symm

theorem lookup_modifyAt (f : Entries → Entries) (name : String) (rest : Place) (entries : Entries) (k : String) :
    (modifyAt f (name :: rest) entries).lookup k = (entries.lookup k).map fun n =>
      match n with
      | .directory inner => if k = name then .directory (modifyAt f rest inner) else n
      | .file _ => n := by
  induction entries with
  | nil => rfl
  | cons entry entries ih =>
    obtain ⟨key, n⟩ := entry
    simp only [modifyAt, List.map_cons] at ih ⊢
    by_cases hk : k = key
    · subst hk
      cases n with
      | file content => simp
      | directory inner => by_cases hname : k = name <;> simp [hname]
    · have hbeq : (k == key) = false := beq_eq_false_iff_ne.mpr hk
      cases n with
      | file content => simp only [List.lookup_cons, hbeq, ih]
      | directory inner =>
        by_cases hname : key = name
        · simp only [if_pos hname, List.lookup_cons, hbeq, ih]
        · simp only [if_neg hname, List.lookup_cons, hbeq, ih]

/-- At a changed directory and below it. -/
theorem find?_modifyAt_below (f : Entries → Entries) (h : find? (.directory entries) dir = some (.directory inner))
    (rest : Place) : find? (.directory (modifyAt f dir entries)) (dir ++ rest) = find? (.directory (f inner)) rest := by
  induction dir generalizing entries with
  | nil =>
    obtain rfl := Node.directory.inj (Option.some.inj ((find?_nil _).symm.trans h))
    rfl
  | cons name dir ih =>
    rw [find?] at h
    rw [List.cons_append, find?, lookup_modifyAt]
    obtain ⟨n, hn, h⟩ := Option.bind_eq_some_iff.mp h
    rw [hn]
    cases n with
    | file content => cases dir <;> simp [find?] at h
    | directory below =>
      simp only [Option.map_some, if_true, Option.bind_some]
      exact ih h

/-- Anywhere else, a directory that contains the changed one is seen as before. -/
theorem sight_find?_modifyAt (f : Entries → Entries) (h : ¬dir <+: q) :
    (find? (.directory (modifyAt f dir entries)) q).map Node.sight =
      (find? (.directory entries) q).map Node.sight := by
  induction dir generalizing entries q with
  | nil => exact absurd List.nil_prefix h
  | cons name dir ih =>
    cases q with
    | nil => rfl
    | cons k q =>
      rw [find?, find?, lookup_modifyAt]
      cases entries.lookup k with
      | none => rfl
      | some n =>
        cases n with
        | file content => rfl
        | directory below =>
          simp only [Option.map_some, Option.bind_some]
          by_cases hk : k = name
          · subst hk
            rw [if_pos rfl]
            exact ih fun hpre => h (List.cons_prefix_cons.mpr ⟨rfl, hpre⟩)
          · rw [if_neg hk]

/-- The change of an entry below which nothing lies, and nothing comes to lie, is seen at its place alone. -/
theorem sight?_modify {f : Entries → Entries} {new : Option Node} (hdir : t.node? dir = some (.directory inner))
    (hf : ∀ k, (f inner).lookup k = if k = name then new else inner.lookup k)
    (hold : ∀ n, inner.lookup name = some n → n.Leaf) (hnew : ∀ n, new = some n → n.Leaf) :
    (t.modify dir f).sight? = Function.update t.sight? (dir ++ [name]) (new.map Node.sight) := by
  funext q
  by_cases hpre : dir <+: q
  · obtain ⟨rest, rfl⟩ := hpre
    have hbelow : (t.modify dir f).sight? (dir ++ rest) = (find? (.directory (f inner)) rest).map Node.sight :=
      congrArg (Option.map Node.sight) (find?_modifyAt_below f hdir rest)
    have hbefore : t.sight? (dir ++ rest) = (find? (.directory inner) rest).map Node.sight := by
      rw [sight?, node?, find?_append, ← node?, hdir, Option.bind_some]
    rw [hbelow]
    by_cases hrest : rest = [name]
    · subst hrest
      rw [Function.update_self, find?, hf, if_pos rfl]
      cases new with
      | none => rfl
      | some n => rw [Option.bind_some, find?_nil]
    · rw [Function.update_of_ne fun heq => hrest (List.append_cancel_left heq), hbefore]
      cases rest with
      | nil => rfl
      | cons k more =>
        rw [find?, find?, hf]
        split
        · next hk =>
          subst hk
          cases more with
          | nil => exact absurd rfl hrest
          | cons next more =>
            have hgone : ∀ o : Option Node, (∀ n, o = some n → n.Leaf) → o.bind (find? · (next :: more)) = none :=
              fun o ho => Option.bind_eq_none_iff.mpr fun n hn => ho n hn next more
            rw [hgone _ hnew, hgone _ hold]
        · rfl
  · have hne : q ≠ dir ++ [name] := fun heq => hpre (heq.symm ▸ List.prefix_append dir [name])
    rw [Function.update_of_ne hne]
    exact sight_find?_modifyAt f hpre

section Entry
variable {n : Node}

theorem sight?_put (hdir : t.node? dir = some (.directory inner)) (hold : ∀ n, inner.lookup name = some n → n.Leaf)
    (hnew : n.Leaf) : (t.put dir name n).sight? = Function.update t.sight? (dir ++ [name]) (some n.sight) := by
  refine sight?_modify hdir (fun k => ?_) hold fun n' (hn : some n = some n') => Option.some.inj hn ▸ hnew
  rw [List.lookup_cons, lookup_filter_ne]
  by_cases hk : k = name
  · simp [hk]
  · simp [hk, beq_eq_false_iff_ne.mpr hk]

theorem sight?_delete (hdir : t.node? dir = some (.directory inner))
    (hold : ∀ n, inner.lookup name = some n → n.Leaf) :
    (t.delete dir name).sight? = Function.update t.sight? (dir ++ [name]) none :=
  sight?_modify hdir (fun k => lookup_filter_ne name k inner) hold (by simp)

theorem modifyAt_modifyAt (f g : Entries → Entries) (dir : Place) (entries : Entries) :
    modifyAt f dir (modifyAt g dir entries) = modifyAt (f ∘ g) dir entries := by
  induction dir generalizing entries with
  | nil => rfl
  | cons name dir ih =>
    simp only [modifyAt, List.map_map]
    refine List.map_congr_left fun entry _ => ?_
    obtain ⟨key, n⟩ := entry
    cases n with
    | file content => rfl
    | directory inner => by_cases hk : key = name <;> simp [hk, ih]

/-- What is put twice is there once. -/
theorem put_put (t : FileTree) (dir : Place) (name : String) (n : Node) :
    (t.put dir name n).put dir name n = t.put dir name n := by
  rw [put, put, modify, modify, modifyAt_modifyAt]
  congr 2
  funext entries
  simp [List.filter_filter]

end Entry

end FileTree
end HealthSignal
