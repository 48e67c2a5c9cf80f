import HealthSignal.Proofs.Text.Digits
import HealthSignal.Journal.Table

/-! Record keys in byte order: keys of an id are in the order of their numbers, and the range of an id
holds its own keys and those of ids that continue it with a colon. -/
namespace HealthSignal
open Text

theorem padded_word {seq : Nat} (h : seq < UInt64.size) : padded 20 seq = fixedDigits 20 seq := by
  have h20 : UInt64.size ≤ Nat.pow 10 20 := by decide
  rw [padded, if_pos (by omega)]

theorem utf8_recordKey {id : String} {seq : Nat} (h : seq < UInt64.size) :
    utf8 (recordKey id seq) = utf8 id ++ 58 :: digitBytes 20 seq := by
  have hc : utf8 ":" = [58] := by decide
  have hd : utf8 (String.ofList (padded 20 seq)) = digitBytes 20 seq := by
    simp [utf8, digitBytes, padded_word h]
  rw [recordKey, utf8_append, utf8_append, hc, hd]
  simp

theorem digitBytes_word_lt_iff {s t : Nat} (hs : s < UInt64.size) (ht : t < UInt64.size) :
    digitBytes 20 s < digitBytes 20 t ↔ s < t := by
  have h20 : UInt64.size ≤ Nat.pow 10 20 := by decide
  exact digitBytes_lt_iff (by omega) (by omega)

/-- Keys of one id are in the order of their numbers. -/
theorem precedes_recordKey {id : String} {s t : Nat} (hs : s < UInt64.size)
    (ht : t < UInt64.size) : precedes (recordKey id s) (recordKey id t) = true ↔ s < t := by
  rw [precedes_iff, utf8_recordKey hs, utf8_recordKey ht, append_lt_append_iff,
    List.cons_lt_cons_iff, digitBytes_word_lt_iff hs ht]
  simp

theorem recordKey_inj {p q : String} {s t : Nat} (hs : s < UInt64.size) (ht : t < UInt64.size) :
    recordKey p s = recordKey q t ↔ p = q ∧ s = t := by
  refine ⟨fun h => ?_, fun ⟨hp, hst⟩ => by rw [hp, hst]⟩
  have hbytes : utf8 p ++ 58 :: digitBytes 20 s = utf8 q ++ 58 :: digitBytes 20 t := by
    rw [← utf8_recordKey hs, ← utf8_recordKey ht, h]
  obtain rfl := utf8_injective (List.append_inj_left' hbytes (by simp))
  have hsame : precedes (recordKey p s) (recordKey p t) = false ∧ precedes (recordKey p t) (recordKey p s) = false := by
    rw [h]
    exact ⟨precedes_irrefl _, precedes_irrefl _⟩
  rw [← Bool.not_eq_true, ← Bool.not_eq_true, precedes_recordKey hs ht, precedes_recordKey ht hs] at hsame
  exact ⟨rfl, by omega⟩

def Continues (p q : String) : Prop := (p ++ ":").toList <+: q.toList

instance (p q : String) : Decidable (Continues p q) :=
  inferInstanceAs (Decidable ((p ++ ":").toList <+: q.toList))

theorem continues_iff {p q : String} : Continues p q ↔ utf8 p ++ [58] <+: utf8 q := by
  have hc : utf8 ":" = [58] := by decide
  rw [Continues, ← utf8_prefix_iff, utf8_append, hc]

/-- A key starts with an id and a colon if it is of that id or of one that continues it. -/
theorem prefix_recordKey_iff {p q : String} {s : Nat} (hs : s < UInt64.size) :
    utf8 p ++ [58] <+: utf8 (recordKey q s) ↔ q = p ∨ Continues p q := by
  rw [continues_iff, utf8_recordKey hs]
  constructor
  · intro h
    obtain hlt | heq | hgt := Nat.lt_trichotomy (utf8 p).length (utf8 q).length
    · exact Or.inr (List.prefix_of_prefix_length_le h (List.prefix_append _ _) (by simp; omega))
    · obtain ⟨rest, h⟩ := h
      rw [List.append_assoc] at h
      exact Or.inl (utf8_injective (List.append_inj_left h heq).symm)
    · -- The colon would be among the digits.
      exfalso
      obtain ⟨rest, h⟩ := h
      have hq : utf8 q ++ [58] <+: utf8 q ++ 58 :: digitBytes 20 s := ⟨digitBytes 20 s, by simp⟩
      have hp : utf8 p <+: utf8 q ++ 58 :: digitBytes 20 s := ⟨58 :: rest, by simpa using h⟩
      obtain ⟨mid, hmid⟩ := List.prefix_of_prefix_length_le hq hp (by simp; omega)
      rw [← hmid] at h
      have hdigits : mid ++ 58 :: rest = digitBytes 20 s := by simpa using h
      have := lt_colon_of_mem_digitBytes (hdigits ▸ List.mem_append_right mid List.mem_cons_self)
      exact absurd this (by decide)
  · rintro (rfl | h)
    · exact ⟨digitBytes 20 s, by simp⟩
    · exact h.trans (List.prefix_append _ _)

/-- Bytes between a text with a colon after it and the text with a semicolon after it. -/
theorem between_iff_prefix {xs k : List UInt8} :
    (¬ k < xs ++ [58] ∧ k < xs ++ [59]) ↔ xs ++ [58] <+: k := by
  induction xs generalizing k with
  | nil =>
    cases k with
    | nil => simp
    | cons b k => simp [List.cons_lt_cons_iff]; grind
  | cons x xs ih =>
    cases k with
    | nil => simp
    | cons b k =>
      simp only [List.cons_append, List.cons_lt_cons_iff, List.cons_prefix_cons, ← ih]
      grind

theorem contains_ofId_iff {p key : String} :
    (KeyRange.ofId p).contains key = true ↔ utf8 p ++ [58] <+: utf8 key := by
  have hc : utf8 ":" = [58] := by decide
  have hs : utf8 ";" = [59] := by decide
  rw [← between_iff_prefix]
  simp [KeyRange.contains, KeyRange.ofId, precedes, hc, hs]

/-- The range of an id holds its own keys and those of ids that continue it. -/
theorem contains_ofId_recordKey {p q : String} {s : Nat} (hs : s < UInt64.size) :
    (KeyRange.ofId p).contains (recordKey q s) = true ↔ q = p ∨ Continues p q := by
  rw [contains_ofId_iff, prefix_recordKey_iff hs]

theorem contains_below_recordKey {p : String} {s b : Nat} (hs : s < UInt64.size)
    (hb : b < UInt64.size) : (KeyRange.below p b).contains (recordKey p s) = true ↔ s < b := by
  have h0 : (precedes (recordKey p s) (recordKey p 0)) = false := by
    rw [Bool.eq_false_iff, Ne, precedes_recordKey hs (by decide)]
    omega
  simp [KeyRange.contains, KeyRange.below, h0, precedes_recordKey hs hb]

/-- Pruning an id reaches only keys that its own range holds. -/
theorem contains_ofId_of_contains_below {q key : String} {b : Nat} (hb : b < UInt64.size)
    (h : (KeyRange.below q b).contains key = true) : (KeyRange.ofId q).contains key = true := by
  simp only [KeyRange.contains, KeyRange.below, precedes, Bool.and_eq_true, Bool.not_eq_true',
    decide_eq_false_iff_not, decide_eq_true_eq, utf8_recordKey hb,
    utf8_recordKey (show 0 < UInt64.size by decide)] at h
  obtain ⟨hfirst, hstop⟩ := h
  rw [List.append_cons] at hfirst hstop
  exact contains_ofId_iff.mpr (prefix_of_between hfirst hstop)

structure Unrelated (p q : String) : Prop where
  ne : q ≠ p
  forth : ¬ Continues p q
  back : ¬ Continues q p

instance (p q : String) : Decidable (Unrelated p q) :=
  decidable_of_iff (q ≠ p ∧ ¬ Continues p q ∧ ¬ Continues q p)
    ⟨fun ⟨ne, forth, back⟩ => ⟨ne, forth, back⟩, fun h => ⟨h.ne, h.forth, h.back⟩⟩

theorem eq_or_continues {p q : String} (h : utf8 p ++ [58] <+: utf8 q ++ [58]) :
    q = p ∨ Continues p q := by
  obtain heq | hlt := Nat.eq_or_lt_of_le h.length_le
  · exact Or.inl (utf8_injective (List.append_cancel_right (h.eq_of_length heq)).symm)
  · refine Or.inr (continues_iff.mpr (List.prefix_of_prefix_length_le h (List.prefix_append ..) ?_))
    simp at hlt ⊢
    omega

/-- No key lies in the ranges of two unrelated ids. -/
theorem Unrelated.apart {p q key : String} (h : Unrelated p q)
    (hp : (KeyRange.ofId p).contains key = true) : (KeyRange.ofId q).contains key = false := by
  rw [Bool.eq_false_iff]
  intro hq
  rw [contains_ofId_iff] at hp hq
  obtain hpq | hqp := List.prefix_or_prefix_of_prefix hp hq
  · exact (eq_or_continues hpq).elim h.ne h.forth
  · exact (eq_or_continues hqp).elim (fun heq => h.ne heq.symm) h.back

/-- A key tells its id and number, the keys of an id are in the order of their numbers, the range of an id holds the
keys of that id and of those that continue it, and pruning an id reaches those of its keys that are below. -/
theorem key_ranges_exact (p q : String) (s t b : UInt64) :
    (recordKey p s.toNat = recordKey q t.toNat ↔ p = q ∧ s = t) ∧
    (precedes (recordKey p s.toNat) (recordKey p t.toNat) = true ↔ s < t) ∧
    ((KeyRange.ofId p).contains (recordKey q s.toNat) = true ↔ q = p ∨ Continues p q) ∧
    ((KeyRange.below p b.toNat).contains (recordKey p s.toNat) = true ↔ s < b) := by
  have hs : s.toNat < UInt64.size := s.toNat_lt
  have ht : t.toNat < UInt64.size := t.toNat_lt
  have hb : b.toNat < UInt64.size := b.toNat_lt
  refine ⟨?_, ?_, contains_ofId_recordKey hs, ?_⟩
  · rw [recordKey_inj hs ht, UInt64.toNat_inj]
  · rw [precedes_recordKey hs ht, UInt64.lt_iff_toNat_lt]
  · rw [contains_below_recordKey hs hb, UInt64.lt_iff_toNat_lt]

end HealthSignal
