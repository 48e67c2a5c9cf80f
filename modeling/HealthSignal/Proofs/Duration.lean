import HealthSignal.Config.Error
import HealthSignal.Proofs.Text.Span

/-! The texts that denote a duration: a number of one unit, with blanks around it. All other texts are refused, and
the error holds the text as it was given. -/
namespace HealthSignal.Duration
open Text

namespace Unit

def letters : Unit → List Char
  | .none => []
  | .millisecond => ['m', 's']
  | .second => ['s']
  | .minute => ['m']

def millis : Unit → Nat
  | .millisecond => 1
  | .none | .second => 1000
  | .minute => 60000

end Unit

def Numeral (cs run : List Char) : Prop :=
  (cs = run ∨ cs = '+' :: run) ∧ run ≠ [] ∧ ∀ c ∈ run, isDigit c = true

def Spells (s : String) (run : List Char) (u : Unit) : Prop :=
  ∃ left number right, s.toList = left ++ (number ++ u.letters) ++ right ∧ Numeral number run ∧
    (∀ c ∈ left, isBlank c = true) ∧ ∀ c ∈ right, isBlank c = true

def Fits (n : Nat) (u : Unit) : Prop := n < UInt64.size ∧ (u = .minute → 60 * n < UInt64.size)

variable {s : String} {cs number run : List Char} {u : Unit} {n : Nat} {d : Duration}

theorem isBlank_of_isDigit {c : Char} (h : isDigit c = true) : isBlank c = false := by
  simp only [isDigit, Bool.and_eq_true, decide_eq_true_eq] at h
  simp only [isBlank, Bool.or_eq_false_iff, Bool.and_eq_false_iff, decide_eq_false_iff_not, beq_eq_false_iff_ne]
  omega

theorem Numeral.ne_nil (h : Numeral cs run) : cs ≠ [] := by
  obtain ⟨rfl | rfl, hrun, -⟩ := h
  · exact hrun
  · simp

/-- The first character is a digit or the plus sign. -/
theorem Numeral.stops (h : Numeral cs run) (rest : List Char) : Stops isBlank (cs ++ rest) := by
  obtain ⟨rfl | rfl, hrun, hdigits⟩ := h
  · obtain ⟨c, cs, rfl⟩ := List.exists_cons_of_ne_nil hrun
    exact stops_cons (isBlank_of_isDigit (hdigits c List.mem_cons_self)) _
  · exact stops_cons (by decide) _

/-- The last character is a digit. -/
theorem Numeral.exists_concat (h : Numeral cs run) : ∃ front c, cs = front ++ [c] ∧ isDigit c = true := by
  obtain ⟨hcs, hrun, hdigits⟩ := h
  obtain ⟨front, c, rfl⟩ := List.eq_nil_or_concat run |>.resolve_left hrun
  have hc := hdigits c (by simp)
  obtain rfl | rfl := hcs
  · exact ⟨front, c, List.concat_eq_append, hc⟩
  · exact ⟨'+' :: front, c, by simp, hc⟩

/-- Neither a digit nor the letter of a unit is a blank. -/
theorem Numeral.stops_reverse (h : Numeral cs run) (u : Unit) : Stops isBlank (cs ++ u.letters).reverse := by
  obtain ⟨front, c, rfl, hc⟩ := h.exists_concat
  rw [List.reverse_append]
  cases u with
  | none => simpa [Unit.letters] using stops_cons (isBlank_of_isDigit hc) front.reverse
  | millisecond | second | minute => exact stops_cons (by decide) _

theorem readWord?_eq_some :
    readWord? cs = some n ↔ ∃ run, Numeral cs run ∧ digitsValue run = n ∧ n < UInt64.size := by
  have hread : ∀ run, (readDigits? run).filter (· < UInt64.size) = some n ↔
      (run ≠ [] ∧ ∀ c ∈ run, isDigit c = true) ∧ digitsValue run = n ∧ n < UInt64.size := by
    intro run
    simp [readDigits?, Option.filter_eq_some_iff, and_assoc]
  unfold readWord?
  split
  · next body =>
    rw [hread]
    constructor
    · rintro ⟨hrun, hn⟩
      exact ⟨body, ⟨Or.inr rfl, hrun⟩, hn⟩
    · rintro ⟨run, ⟨rfl | heq, hrun⟩, hn⟩
      · exact absurd (hrun.2 '+' List.mem_cons_self) (by decide)
      · obtain rfl := List.tail_eq_of_cons_eq heq
        exact ⟨hrun, hn⟩
  · next hplus =>
    rw [hread]
    constructor
    · rintro ⟨hrun, hn⟩
      exact ⟨cs, ⟨Or.inl rfl, hrun⟩, hn⟩
    · rintro ⟨run, ⟨rfl | heq, hrun⟩, hn⟩
      · exact ⟨hrun, hn⟩
      · exact absurd heq (hplus run)

theorem splitUnit_letters (h : Numeral number run) (u : Unit) : splitUnit (number ++ u.letters) = (number, u) := by
  obtain ⟨front, c, rfl, hc⟩ := h.exists_concat
  have hs : c ≠ 's' := by
    rintro rfl
    cases hc
  have hm : c ≠ 'm' := by
    rintro rfl
    cases hc
  cases u <;> simp [splitUnit, Unit.letters, hs, hm]

theorem eq_of_splitUnit (h : splitUnit cs = (number, u)) : cs = number ++ u.letters := by
  rw [← List.reverse_inj]
  unfold splitUnit at h
  split at h <;> obtain ⟨rfl, rfl⟩ := h <;> simp_all [Unit.letters]

theorem ofUnits?_eq_some (n : Nat) (u : Unit) :
    ofUnits? n u = some d ↔ (u = .minute → 60 * n < UInt64.size) ∧ d = ⟨u.millis * n⟩ := by
  cases u with
  | minute =>
    simp only [ofUnits?, seconds, Unit.millis]
    split
    · next hfits =>
      have hmillis : 1000 * (60 * n) = 60000 * n := by omega
      simp [hfits, hmillis, eq_comm]
    · next hfits => simp [hfits]
  | none | millisecond | second => simp [ofUnits?, Unit.millis, seconds, eq_comm]

/-- Exactly the texts of a number that fits are read, as so many of their unit. -/
theorem parse?_eq_some : parse? s = some d ↔
    ∃ run u, Spells s run u ∧ Fits (digitsValue run) u ∧ d = ⟨u.millis * digitsValue run⟩ := by
  constructor
  · intro h
    obtain ⟨left, right, htrim, hleft, hright⟩ := exists_blanks s.toList
    obtain ⟨n, hn, hd⟩ := Option.bind_eq_some_iff.mp h
    obtain ⟨run, hnumeral, rfl, hword⟩ := readWord?_eq_some.mp hn
    obtain ⟨hminutes, rfl⟩ := (ofUnits?_eq_some ..).mp hd
    have hsplit : trim s.toList = (splitUnit (trim s.toList)).1 ++ (splitUnit (trim s.toList)).2.letters :=
      eq_of_splitUnit rfl
    rw [hsplit] at htrim
    exact ⟨run, _, ⟨left, _, right, htrim, hnumeral, hleft, hright⟩, ⟨hword, hminutes⟩, rfl⟩
  · rintro ⟨run, u, ⟨left, number, right, hs, hnumeral, hleft, hright⟩, ⟨hword, hminutes⟩, rfl⟩
    have htrim : trim s.toList = number ++ u.letters := by
      rw [hs]
      exact trim_blanks hleft hright (by simp [hnumeral.ne_nil]) (hnumeral.stops _) (hnumeral.stops_reverse u)
    simp only [parse?, htrim, splitUnit_letters hnumeral u]
    rw [readWord?_eq_some.mpr ⟨run, hnumeral, rfl, hword⟩]
    exact (ofUnits?_eq_some ..).mpr ⟨hminutes, rfl⟩

/-- What fits is counted in whole seconds by a machine word. -/
theorem Fits.seconds_lt (h : Fits n u) : u.millis * n / 1000 < UInt64.size := by
  obtain ⟨hword, hminutes⟩ := h
  cases u with
  | minute =>
    have := hminutes rfl
    simp only [Unit.millis]
    omega
  | none | millisecond | second =>
    simp only [Unit.millis]
    omega

theorem read_eq_ok : read s = .ok d ↔ parse? s = some d := by
  unfold read
  split
  · next h => simp [h]
  · next h => simp [h]

theorem read_eq_error {e : ConfigError} : read s = .error e ↔ e = .duration s ∧ parse? s = none := by
  unfold read
  split
  · next h => simp [h]
  · next h => simp [h, eq_comm]

/-- A text is read exactly if it spells a number of units that fits, as so many of them, which a machine word can
count in whole seconds. In every other case the error holds the text, blanks and all. -/
theorem read_iff_spells (s : String) :
    (∀ d, read s = .ok d ↔ (∃ run u, Spells s run u ∧ Fits (digitsValue run) u ∧
      d = ⟨u.millis * digitsValue run⟩) ∧ d.millis / 1000 < UInt64.size) ∧
    ∀ e, read s = .error e ↔ e = .duration s ∧ ¬∃ run u, Spells s run u ∧ Fits (digitsValue run) u := by
  constructor
  · intro d
    rw [read_eq_ok, parse?_eq_some]
    refine ⟨fun h => ⟨h, ?_⟩, And.left⟩
    obtain ⟨run, u, -, hfits, rfl⟩ := h
    exact hfits.seconds_lt
  · intro e
    rw [read_eq_error, Option.eq_none_iff_forall_ne_some]
    refine and_congr_right fun _ => ⟨fun h => ?_, fun h d hd => ?_⟩
    · rintro ⟨run, u, hs, hfits⟩
      exact h _ (parse?_eq_some.mpr ⟨run, u, hs, hfits, rfl⟩)
    · obtain ⟨run, u, hs, hfits, -⟩ := parse?_eq_some.mp hd
      exact h ⟨run, u, hs, hfits⟩

example : parse? " +307445734561825860m" = some (.seconds 18446744073709551600) ∧
    parse? "307445734561825861m" = none ∧ parse? "5 s" = none := by decide

end HealthSignal.Duration
