import HealthSignal.Proofs.Text.Utf8
import HealthSignal.Journal.Table

/-! Tables in key order. What a table holds in a range moves only with keys of the range. -/
namespace HealthSignal.Table
open Text

def Sorted (t : Table) : Prop := t.Pairwise fun a b => precedes a.1 b.1 = true

variable {t : Table} {r : KeyRange} {key text : String}

theorem mem_insert {x : String × String} (h : x ∈ t.insert key text) : x = (key, text) ∨ x ∈ t := by
  induction t with
  | nil => simpa [insert] using h
  | cons y rest ih =>
    unfold insert at h
    split at h
    · grind
    · split at h <;> grind

theorem mem_insert_self (key text : String) (t : Table) : (key, text) ∈ t.insert key text := by
  induction t with
  | nil => exact List.mem_cons_self
  | cons x rest ih =>
    unfold insert
    split
    · exact List.mem_cons_of_mem _ ih
    · split <;> exact List.mem_cons_self

theorem Sorted.insert (h : t.Sorted) : (t.insert key text).Sorted := by
  induction t with
  | nil => simp [Table.insert, Sorted]
  | cons x rest ih =>
    obtain ⟨hx, hrest⟩ := List.pairwise_cons.mp h
    unfold Table.insert
    split
    · next hlt =>
      refine List.pairwise_cons.mpr ⟨fun y hy => ?_, ih hrest⟩
      obtain rfl | hy := mem_insert hy
      · exact hlt
      · exact hx y hy
    · next hnot =>
      split
      · next hgt =>
        refine List.pairwise_cons.mpr ⟨fun y hy => ?_, h⟩
        obtain rfl | hy := List.mem_cons.mp hy
        · exact hgt
        · exact precedes_trans hgt (hx y hy)
      · next hnot' =>
        obtain rfl : x.1 = key := eq_of_not_precedes (by simpa using hnot) (by simpa using hnot')
        exact List.pairwise_cons.mpr ⟨hx, hrest⟩

theorem Sorted.filter (h : t.Sorted) (p : String × String → Bool) : Sorted (t.filter p) :=
  List.Pairwise.filter p h

/-- The last key is later than all others. -/
theorem Sorted.eq_or_precedes (h : t.Sorted) {x last : String × String} (hlast : t.getLast? = some last)
    (hx : x ∈ t) : x = last ∨ precedes x.1 last.1 = true := by
  obtain ⟨front, rfl⟩ := List.getLast?_eq_some_iff.mp hlast
  obtain hx | hx := List.mem_append.mp hx
  · exact Or.inr ((List.pairwise_append.mp h).2.2 x hx last List.mem_cons_self)
  · exact Or.inl (List.mem_singleton.mp hx)

/-- A key above all others comes last. -/
theorem insert_below (h : ∀ x ∈ t, precedes key x.1 = true) :
    t.insert key text = (key, text) :: t := by
  cases t with
  | nil => rfl
  | cons x rest =>
    have hx := h x List.mem_cons_self
    rw [Table.insert, if_neg (by simp [precedes_asymm hx]), if_pos hx]

theorem inRange_insert_outside (hr : r.contains key = false) :
    (t.insert key text).inRange r = t.inRange r := by
  induction t with
  | nil => simp [Table.insert, inRange, hr]
  | cons x rest ih =>
    unfold Table.insert
    split
    · simp only [inRange, List.filter_cons] at ih ⊢
      rw [ih]
    · next hnot =>
      split
      · simp [inRange, hr]
      · next hnot' =>
        obtain rfl : x.1 = key := eq_of_not_precedes (by simpa using hnot) (by simpa using hnot')
        simp [inRange, hr]

theorem inRange_insert_inside (h : t.Sorted) (hr : r.contains key = true) :
    (t.insert key text).inRange r = (t.inRange r).insert key text := by
  induction t with
  | nil => simp [Table.insert, inRange, hr]
  | cons x rest ih =>
    obtain ⟨hx, hrest⟩ := List.pairwise_cons.mp h
    have ih := ih hrest
    simp only [inRange] at ih ⊢
    by_cases hlt : precedes x.1 key = true
    · rw [Table.insert, if_pos hlt, List.filter_cons, ih, List.filter_cons]
      split
      · rw [Table.insert, if_pos hlt]
      · rfl
    · by_cases hgt : precedes key x.1 = true
      · have hbelow : ∀ y ∈ x :: rest, precedes key y.1 = true := by
          intro y hy
          obtain rfl | hy := List.mem_cons.mp hy
          · exact hgt
          · exact precedes_trans hgt (hx y hy)
        rw [insert_below hbelow, insert_below fun y hy => hbelow y (List.mem_filter.mp hy).1,
          List.filter_cons_of_pos (by simpa using hr)]
      · obtain rfl : x.1 = key := eq_of_not_precedes (by simpa using hlt) (by simpa using hgt)
        simp [Table.insert, precedes_irrefl, hr]

theorem inRange_removeRange (s : KeyRange) :
    (t.removeRange s).inRange r = (t.inRange r).filter (!s.contains ·.1) := by
  simp only [inRange, removeRange, List.filter_filter, Bool.and_comm]

end HealthSignal.Table
