import HealthSignal.Transport.Path
import Mathlib.Data.List.Infix

/-! The directories on the way to a path. The system takes the paths to them if it takes the path. -/
namespace HealthSignal.Path

variable {p : Path} {s : String} {rest segments : List String}

theorem size_cons (hrest : rest ≠ []) : (Path.mk (s :: rest)).size = (Path.mk rest).size + 1 + s.utf8ByteSize := by
  have hrev : rest.reverse ≠ [] := mt List.reverse_eq_nil_iff.mp hrest
  rw [size, text, List.reverse_cons, String.intercalate_append_of_ne_nil hrev (by simp),
    String.intercalate_singleton, String.utf8ByteSize_append, String.utf8ByteSize_append]
  rfl

theorem size_le_cons (s : String) (rest : List String) : (Path.mk rest).size ≤ (Path.mk (s :: rest)).size := by
  by_cases hrest : rest = []
  · subst hrest
    exact Nat.zero_le _
  · rw [size_cons hrest]
    omega

theorem size_ne_zero (hs : ¬blank s) : (Path.mk (s :: rest)).size ≠ 0 := by
  by_cases hrest : rest = []
  · subst hrest
    intro h
    have hempty : s = "" := String.utf8ByteSize_eq_zero_iff.mp (by simpa [size, text] using h)
    exact hs (by simp [blank, hempty])
  · rw [size_cons hrest]
    omega

theorem size_le_of_suffix (h : rest <:+ segments) : (Path.mk rest).size ≤ (Path.mk segments).size := by
  obtain ⟨more, rfl⟩ := h
  induction more with
  | nil => exact Nat.le_refl _
  | cons s more ih => exact Nat.le_trans ih (size_le_cons s (more ++ rest))

theorem check_ok_iff : p.check = .ok () ↔
    p.segments.any (·.toList.contains '\x00') = false ∧ p.size ≠ 0 ∧ p.size < 4096 := by
  unfold check
  split
  · next h => exact ⟨fun hok => by simp at hok, fun hok => Bool.noConfusion (h.symm.trans hok.1)⟩
  · split
    · next hsize => exact ⟨fun hok => by simp at hok, fun hok => absurd hsize hok.2.1⟩
    · split
      · next hlong => exact ⟨fun hok => by simp at hok, fun hok => by omega⟩
      · next h hsize hlong => exact ⟨fun _ => ⟨by simpa using h, hsize, by omega⟩, fun _ => rfl⟩

/-- The system takes the way to a path that it takes. -/
theorem check_of_suffix (hs : ¬blank s) (hsuffix : s :: rest <:+ segments)
    (h : (Path.mk segments).check = .ok ()) : (Path.mk (s :: rest)).check = .ok () := by
  obtain ⟨hnul, -, hlong⟩ := check_ok_iff.mp h
  refine check_ok_iff.mpr ⟨?_, size_ne_zero hs, Nat.lt_of_le_of_lt (size_le_of_suffix hsuffix) hlong⟩
  rw [List.any_eq_false] at hnul ⊢
  exact fun part hpart => hnul part (hsuffix.subset hpart)

theorem check_ne_notFound (hs : ¬blank s) : (Path.mk (s :: rest)).check ≠ .error .notFound := by
  unfold check
  split
  · simp
  · rw [if_neg (size_ne_zero hs)]
    split <;> simp

theorem names_of_blank (hs : blank s) : (Path.mk (s :: rest)).names = (Path.mk rest).names := by
  simp [names, hs]

theorem names_of_name (hs : ¬blank s) : (Path.mk (s :: rest)).names = (Path.mk rest).names ++ [s] := by
  simp [names, hs]

theorem ending_of_name (hs : ¬blank s) : (Path.mk (s :: rest)).ending = .name := by
  have hne : s ≠ "" ∧ s ≠ "." := by simpa [blank] using hs
  simp [ending, hne]

structure Extends (p : Path) (above : List Path) (names : List String) (name : String) : Prop where
  names : p.names = names ++ [name]
  ending : p.ending = .name
  taken : p.check ≠ .error .notFound
  above : p.check = .ok () → ∀ q ∈ above, q.check = .ok ()

theorem Extends.not_slash {above : List Path} {names : List String} {name : String}
    (h : p.Extends above names name) : p.ending ≠ .slash := by
  simp [h.ending]

/-- The paths to every directory on the way along some names, the longest first. -/
inductive Way : List Path → List String → Prop
  | nil : Way [] []
  | cons {p : Path} {above : List Path} {names : List String} {name : String} :
    p.Extends above names name → Way above names → Way (p :: above) (names ++ [name])

theorem of_mem_leading {q : Path} (h : q ∈ leading rest) :
    ∃ s more, q = ⟨s :: more⟩ ∧ ¬blank s ∧ s :: more <:+ rest := by
  induction rest with
  | nil => simp [leading] at h
  | cons s rest ih =>
    have hbelow : q ∈ leading rest → ∃ s' more, q = ⟨s' :: more⟩ ∧ ¬blank s' ∧ s' :: more <:+ s :: rest := fun hq => by
      obtain ⟨s', more, heq, hs', hsuffix⟩ := ih hq
      exact ⟨s', more, heq, hs', hsuffix.trans (List.suffix_cons s rest)⟩
    unfold leading at h
    split at h
    · exact hbelow h
    · next hs =>
      obtain rfl | hq := List.mem_cons.mp h
      · exact ⟨s, rest, rfl, hs, List.suffix_refl _⟩
      · exact hbelow hq

theorem check_leading (h : (Path.mk segments).check = .ok ()) : ∀ q ∈ leading segments, q.check = .ok () := by
  intro q hq
  obtain ⟨s, more, rfl, hs, hsuffix⟩ := of_mem_leading hq
  exact check_of_suffix hs hsuffix h

theorem check_ancestors (h : p.check = .ok ()) : ∀ q ∈ p.ancestors, q.check = .ok () :=
  fun q hq => check_leading h q (List.mem_of_mem_tail hq)

theorem way_leading (segments : List String) : Way (leading segments) (Path.mk segments).names := by
  induction segments with
  | nil => exact .nil
  | cons s rest ih =>
    unfold leading
    split
    · next hs =>
      rw [names_of_blank hs]
      exact ih
    · next hs =>
      rw [names_of_name hs]
      refine .cons ⟨names_of_name hs, ending_of_name hs, check_ne_notFound hs, fun hcheck q hq => ?_⟩ ih
      obtain ⟨s', more, rfl, hs', hsuffix⟩ := of_mem_leading hq
      exact check_of_suffix hs' (hsuffix.trans (List.suffix_cons s rest)) hcheck

/-- The directories above a path lie on the way along all its names but the last one. -/
theorem way_ancestors (p : Path) : Way p.ancestors p.names.dropLast := by
  have hw : Way (leading p.segments) p.names := way_leading p.segments
  unfold ancestors
  generalize leading p.segments = ps, p.names = names at hw
  cases hw with
  | nil => exact .nil
  | cons _ hw =>
    rw [List.dropLast_concat]
    exact hw

/-- Every path of a way leads along a part of its names. -/
theorem Way.initial {ps : List Path} {names : List String} (hw : Way ps names) : ∀ p ∈ ps, p.names <+: names := by
  induction hw with
  | nil => simp
  | cons hext _ ih =>
    intro q hq
    obtain rfl | hq := List.mem_cons.mp hq
    · exact hext.names ▸ List.prefix_refl _
    · exact (ih q hq).trans (List.prefix_append ..)

end HealthSignal.Path
