import HealthSignal.Text.Utf8

/-! Byte order of texts: a strict linear order in which the texts that start with a given one lie
together. -/
namespace HealthSignal.Text

@[simp] theorem utf8_append (s t : String) : utf8 (s ++ t) = utf8 s ++ utf8 t := by
  simp [utf8]

/-- A character is read off the front of any bytes that its code starts. -/
theorem encode_head {c d : Char} {xs ys : List UInt8}
    (h : String.utf8EncodeChar c ++ xs = String.utf8EncodeChar d ++ ys) : c = d := by
  have hc := ByteArray.utf8DecodeChar?_utf8EncodeChar_append (b := xs.toByteArray) (c := c)
  have hd := ByteArray.utf8DecodeChar?_utf8EncodeChar_append (b := ys.toByteArray) (c := d)
  rw [← List.toByteArray_append, h, List.toByteArray_append] at hc
  exact Option.some.inj (hc.symm.trans hd)

theorem encode_prefix {cs ds : List Char}
    (h : cs.flatMap String.utf8EncodeChar <+: ds.flatMap String.utf8EncodeChar) : cs <+: ds := by
  induction cs generalizing ds with
  | nil => exact List.nil_prefix
  | cons c cs ih =>
    obtain ⟨rest, h⟩ := h
    cases ds with
    | nil => simp [String.utf8EncodeChar_ne_nil] at h
    | cons d ds =>
      simp only [List.flatMap_cons, List.append_assoc] at h
      obtain rfl := encode_head h
      rw [List.cons_prefix_cons]
      exact ⟨rfl, ih ⟨rest, List.append_cancel_left h⟩⟩

/-- Texts start with one another as their bytes do. -/
theorem utf8_prefix_iff {s t : String} : utf8 s <+: utf8 t ↔ s.toList <+: t.toList := by
  constructor
  · exact encode_prefix
  · rintro ⟨rest, h⟩
    exact ⟨rest.flatMap String.utf8EncodeChar, by simp [utf8, ← h]⟩

theorem utf8_injective {s t : String} (h : utf8 s = utf8 t) : s = t := by
  have hst : s.toList <+: t.toList := utf8_prefix_iff.mp (h ▸ List.prefix_refl _)
  have hts : t.toList <+: s.toList := utf8_prefix_iff.mp (h ▸ List.prefix_refl _)
  exact String.toList_inj.mp (hst.eq_of_length_le hts.length_le)

section Bytes
variable {xs ys zs : List UInt8}

theorem append_lt_append_iff : xs ++ ys < xs ++ zs ↔ ys < zs := by
  induction xs with
  | nil => rfl
  | cons x xs ih => simp [ih]

/-- Bytes between two that start with `xs` start with `xs` too. -/
theorem prefix_of_between {k : List UInt8} (hfirst : ¬ k < xs ++ ys) (hstop : k < xs ++ zs) :
    xs <+: k := by
  induction xs generalizing k with
  | nil => exact List.nil_prefix
  | cons x xs ih =>
    cases k with
    | nil => simp [List.nil_lt_cons] at hfirst
    | cons b k =>
      simp only [List.cons_append, List.cons_lt_cons_iff, not_or, not_and] at hfirst hstop
      obtain h | ⟨rfl, h⟩ := hstop
      · exact absurd h hfirst.1
      · rw [List.cons_prefix_cons]
        exact ⟨rfl, ih (hfirst.2 rfl) h⟩

/-- Texts of one length are compared by all but their last bytes first. -/
theorem concat_lt_concat_iff {a b : UInt8} (h : xs.length = ys.length) :
    xs ++ [a] < ys ++ [b] ↔ xs < ys ∨ xs = ys ∧ a < b := by
  induction xs generalizing ys with
  | nil =>
    obtain rfl := List.length_eq_zero_iff.mp h.symm
    simp [List.cons_lt_cons_iff]
  | cons x xs ih =>
    cases ys with
    | nil => simp at h
    | cons y ys =>
      simp only [List.cons_append, List.cons_lt_cons_iff, List.cons.injEq,
        ih (Nat.succ.inj h)]
      grind

end Bytes

theorem precedes_iff {s t : String} : precedes s t = true ↔ utf8 s < utf8 t := by
  simp [precedes]

theorem precedes_irrefl (s : String) : precedes s s = false := by
  simp [precedes, List.lt_irrefl]

theorem precedes_trans {s t u : String} (hst : precedes s t = true) (htu : precedes t u = true) :
    precedes s u = true :=
  precedes_iff.mpr (List.lt_trans (precedes_iff.mp hst) (precedes_iff.mp htu))

theorem precedes_asymm {s t : String} (h : precedes s t = true) : precedes t s = false := by
  cases hts : precedes t s with
  | false => rfl
  | true => exact absurd (precedes_trans h hts) (by simp [precedes_irrefl])

theorem eq_of_not_precedes {s t : String} (hst : precedes s t = false)
    (hts : precedes t s = false) : s = t := by
  simp only [precedes, decide_eq_false_iff_not, List.not_lt] at hst hts
  exact utf8_injective (List.le_antisymm hts hst)

end HealthSignal.Text
