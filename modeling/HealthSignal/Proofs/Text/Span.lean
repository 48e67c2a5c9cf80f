import HealthSignal.Text.Blank
import HealthSignal.Text.Decimal

/-! Runs of characters of one kind, and what is left of a text without the blanks at its ends. -/
namespace HealthSignal.Text

variable {p : Char → Bool} {run rest left body right cs : List Char}

def Stops (p : Char → Bool) (rest : List Char) : Prop := ∀ c ∈ rest.head?, p c = false

theorem stops_cons {c : Char} (h : p c = false) (rest : List Char) : Stops p (c :: rest) := by
  intro d hd
  obtain rfl : c = d := by simpa using hd
  exact h

theorem takeWhile_run (hrun : ∀ c ∈ run, p c = true) (hrest : Stops p rest) :
    (run ++ rest).takeWhile p = run := by
  rw [List.takeWhile_append_of_pos hrun]
  cases rest with
  | nil => simp
  | cons c rest => simp [hrest c rfl]

theorem dropWhile_run (hrun : ∀ c ∈ run, p c = true) (hrest : Stops p rest) :
    (run ++ rest).dropWhile p = rest := by
  rw [List.dropWhile_append_of_pos hrun]
  cases rest with
  | nil => rfl
  | cons c rest => simp [hrest c rfl]

theorem dropRightWhile_run (hright : ∀ c ∈ right, p c = true) (hbody : Stops p body.reverse) :
    dropRightWhile p (body ++ right) = body := by
  have hrun : ∀ c ∈ right.reverse, p c = true := fun c hc => hright c (List.mem_reverse.mp hc)
  rw [dropRightWhile, List.reverse_append, dropWhile_run hrun hbody, List.reverse_reverse]

/-- A text is cut into blanks, what does not begin or end with one, and blanks again. -/
theorem trim_blanks (hleft : ∀ c ∈ left, isBlank c = true) (hright : ∀ c ∈ right, isBlank c = true)
    (hbody : body ≠ []) (hfirst : Stops isBlank body) (hlast : Stops isBlank body.reverse) :
    trim (left ++ body ++ right) = body := by
  have hstart : Stops isBlank (body ++ right) := by
    obtain ⟨c, body, rfl⟩ := List.exists_cons_of_ne_nil hbody
    exact stops_cons (hfirst c rfl) _
  rw [trim, List.append_assoc, dropWhile_run hleft hstart, dropRightWhile_run hright hlast]

/-- What is trimmed off consists of blanks. -/
theorem exists_blanks (cs : List Char) : ∃ left right, cs = left ++ trim cs ++ right ∧
    (∀ c ∈ left, isBlank c = true) ∧ ∀ c ∈ right, isBlank c = true := by
  refine ⟨cs.takeWhile isBlank, ((cs.dropWhile isBlank).reverse.takeWhile isBlank).reverse, ?_, ?_, ?_⟩
  · rw [trim, dropRightWhile, List.append_assoc, ← List.reverse_append, List.takeWhile_append_dropWhile,
      List.reverse_reverse, List.takeWhile_append_dropWhile]
  · exact List.all_eq_true.mp List.all_takeWhile
  · exact fun c hc => List.all_eq_true.mp List.all_takeWhile c (List.mem_reverse.mp hc)

end HealthSignal.Text
