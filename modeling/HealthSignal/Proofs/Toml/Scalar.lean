import HealthSignal.Proofs.Text.Digits
import HealthSignal.Proofs.Text.Span
import HealthSignal.Proofs.Toml.Strings
import HealthSignal.Toml.Plain

/-! Written keys and scalars read back. -/
namespace HealthSignal.Toml
open Text (Stops digits digitsValue isDigit stops_cons takeWhile_run dropWhile_run)

/-! ### Keys -/

theorem ne_of_isBare {c d : Char} (hc : isBare c = true) (hd : isBare d = false) : c ≠ d := by
  rintro rfl
  rw [hc] at hd
  cases hd

theorem isBlank_of_isBare {c : Char} (h : isBare c = true) : isBlank c = false := by
  have hspace : c ≠ ' ' := ne_of_isBare h (by decide)
  have htab : c ≠ '\t' := ne_of_isBare h (by decide)
  simp [isBlank, hspace, htab]

/-- A written key begins with a bare character or a quote. -/
theorem exists_writeKey (key : String) :
    ∃ c tail, Plain.writeKey key = c :: tail ∧ (isBare c = true ∨ c = '"') := by
  unfold Plain.writeKey
  simp only
  split
  · next h =>
    obtain ⟨c, tail, hcs⟩ := List.exists_cons_of_ne_nil h.1
    have hall := h.2
    rw [hcs, List.all_cons, Bool.and_eq_true] at hall
    exact ⟨c, tail, hcs, Or.inl hall.1⟩
  · exact ⟨'"', _, rfl, Or.inr rfl⟩

theorem skipBlanks_cons {c : Char} (h : isBlank c = false) (rest : List Char) :
    skipBlanks (c :: rest) = c :: rest := by
  simp [skipBlanks, h]

theorem skipBlanks_writeKey (key : String) (rest : List Char) :
    skipBlanks (Plain.writeKey key ++ rest) = Plain.writeKey key ++ rest := by
  obtain ⟨c, tail, hkey, hc⟩ := exists_writeKey key
  have hblank : isBlank c = false := by
    obtain hc | rfl := hc
    · exact isBlank_of_isBare hc
    · rfl
  rw [hkey, List.cons_append, skipBlanks_cons hblank]

theorem readPart_writeKey (key : String) {rest : List Char} (hrest : Stops isBare rest) :
    readPart (Plain.writeKey key ++ rest) = some (key, rest) := by
  unfold Plain.writeKey
  simp only
  split
  · next h =>
    obtain ⟨hne, hall⟩ := h
    have hbare : ∀ c ∈ key.toList, isBare c = true := List.all_eq_true.mp hall
    obtain ⟨c, tail, hcs⟩ := List.exists_cons_of_ne_nil hne
    have hc : isBare c = true := hbare c (by simp [hcs])
    have hread : readPart (key.toList ++ rest) =
        if (key.toList ++ rest).takeWhile isBare = [] then none
        else some (String.ofList ((key.toList ++ rest).takeWhile isBare), (key.toList ++ rest).dropWhile isBare) := by
      rw [hcs, List.cons_append, readPart]
      · exact fun _ heq => ne_of_isBare hc (by decide) (List.cons.inj heq).1
      · exact fun _ heq => ne_of_isBare hc (by decide) (List.cons.inj heq).1
    rw [hread, takeWhile_run hbare hrest, dropWhile_run hbare hrest, if_neg hne, String.ofList_toList]
  · rw [List.append_assoc, List.cons_append, readPart]
    show (basicBody (StringForm.escapeBody false 0 key.toList ++ '"' :: rest)).map _ = _
    rw [basicBody_escapeBody, Option.map_some]
    simp only [String.ofList_toList]

/-- Written keys between dots read back. -/
theorem readParts_writeKeys {keys : List String} (hkeys : keys ≠ []) {rest : List Char}
    (hrest : Stops isBare rest) (hdot : ∀ after, skipBlanks rest ≠ '.' :: after) :
    readParts (List.intercalate ['.'] (keys.map Plain.writeKey) ++ rest) = some (keys, skipBlanks rest) := by
  induction keys with
  | nil => exact absurd rfl hkeys
  | cons key keys ih =>
    cases keys with
    | nil =>
      rw [List.map_cons, List.map_nil, List.intercalate_singleton, readParts, skipBlanks_writeKey,
        readPart_writeKey key hrest]
      simp only [Option.bind_eq_bind, Option.bind_some]
      rfl
    | cons next keys =>
      have hstop : Stops isBare ('.' :: (List.intercalate ['.'] ((next :: keys).map Plain.writeKey) ++ rest)) :=
        stops_cons (by decide) _
      have htext : List.intercalate ['.'] ((key :: next :: keys).map Plain.writeKey) ++ rest =
          Plain.writeKey key ++ '.' :: (List.intercalate ['.'] ((next :: keys).map Plain.writeKey) ++ rest) := by
        simp [List.intercalate_cons_cons]
      rw [htext, readParts, skipBlanks_writeKey, readPart_writeKey key hstop]
      simp only [Option.bind_eq_bind, Option.bind_some, skipBlanks_cons (show isBlank '.' = false by decide)]
      rw [if_pos (by simp; omega), ih (by simp)]
      rfl

theorem readKey_writeKeys {path : List String} (hroom : path.length < maxParts) (key : String) {rest : List Char}
    (hrest : Stops isBare rest) (hdot : ∀ after, skipBlanks rest ≠ '.' :: after) :
    readKey (List.intercalate ['.'] ((path ++ [key]).map Plain.writeKey) ++ rest) =
      some ((path, key), skipBlanks rest) := by
  rw [readKey, readParts_writeKeys (by simp) hrest hdot]
  simp only [Option.bind_eq_bind, Option.bind_some, List.length_append, List.length_singleton]
  rw [if_neg (by omega)]
  simp

/-- A key begins with a bare character or a quote. -/
theorem readKey_eq_none {c : Char} (hblank : isBlank c = false) (hbare : isBare c = false)
    (hquotes : c ≠ '"' ∧ c ≠ '\'') (rest : List Char) : readKey (c :: rest) = none := by
  have hpart : readPart (c :: rest) = none := by
    rw [readPart]
    · simp [hbare]
    · exact fun _ heq => hquotes.1 (List.cons.inj heq).1
    · exact fun _ heq => hquotes.2 (List.cons.inj heq).1
  rw [readKey, readParts, skipBlanks_cons hblank, hpart]
  rfl

/-! ### Numbers -/

def maxInteger : Nat := 9223372036854775807

def DigitsLeft (rest cs : List Char) : Prop := ∃ run, (∀ c ∈ run, isDigit c = true) ∧ cs = run ++ '\n' :: rest

theorem digitsLeft_digits (n : Nat) (rest : List Char) : DigitsLeft rest (digits n ++ '\n' :: rest) :=
  ⟨digits n, List.all_eq_true.mp (Text.all_isDigit_digits n), rfl⟩

theorem DigitsLeft.cons {c : Char} {rest cs : List Char} (h : DigitsLeft rest (c :: cs)) :
    isDigit c = true ∧ DigitsLeft rest cs ∨ c = '\n' := by
  obtain ⟨run, hrun, heq⟩ := h
  cases run with
  | nil => exact Or.inr (List.cons.inj heq).1
  | cons d run =>
    obtain ⟨rfl, hcs⟩ := List.cons.inj heq
    rw [List.forall_mem_cons] at hrun
    exact Or.inl ⟨hrun.1, run, hrun.2, hcs⟩

theorem DigitsLeft.twoDigits {low high n : Nat} {rest cs after : List Char} (h : DigitsLeft rest cs)
    (htwo : twoDigits low high cs = some (n, after)) : DigitsLeft rest after := by
  match cs, htwo with
  | [], htwo => cases htwo
  | [_], htwo => cases htwo
  | a :: b :: cs, htwo =>
    simp only [Toml.twoDigits, Option.ite_none_right_eq_some, Option.some.injEq, Prod.mk.injEq] at htwo
    obtain ⟨⟨ha, hb, -⟩, -, rfl⟩ := htwo
    obtain ⟨-, h⟩ | rfl := h.cons
    · obtain ⟨-, h⟩ | rfl := h.cons
      · exact h
      · cases hb
    · cases ha

theorem DigitsLeft.expect {c : Char} {rest cs : List Char} (h : DigitsLeft rest cs) (hc : isDigit c = false)
    (hline : c ≠ '\n') : expect c cs = none := by
  cases cs with
  | nil => rfl
  | cons d cs =>
    rw [Toml.expect, if_neg]
    rintro rfl
    obtain ⟨hd, -⟩ | hd := h.cons
    · simp [hc] at hd
    · exact hline hd

/-- Digits alone are no date and no time. -/
theorem DigitsLeft.dropDateTime {rest cs : List Char} (h : DigitsLeft rest cs) : dropDateTime cs = none := by
  have hdate : dropDate cs = none := by
    unfold dropDate
    cases hcentury : Toml.twoDigits 0 99 cs with
    | none => rfl
    | some p =>
      cases hyear : Toml.twoDigits 0 99 p.2 with
      | none => simp [hyear]
      | some q => simp [hyear, ((h.twoDigits hcentury).twoDigits hyear).expect (c := '-') (by decide) (by decide)]
  have htime : dropTime cs = none := by
    unfold dropTime
    cases hhour : Toml.twoDigits 0 23 cs with
    | none => rfl
    | some p => simp [(h.twoDigits hhour).expect (c := ':') (by decide) (by decide)]
  rw [Toml.dropDateTime, hdate]
  exact htime

theorem digitRun_digits {run : List Char} (hne : run ≠ []) (hrun : ∀ c ∈ run, isDigit c = true)
    (rest : List Char) :
    digitRun isDigit (run ++ '\n' :: rest) = some (run, '\n' :: rest) := by
  induction run with
  | nil => exact absurd rfl hne
  | cons c run ih =>
    rw [List.forall_mem_cons] at hrun
    cases run with
    | nil => simp [digitRun, hrun.1, show isDigit '\n' = false by decide]
    | cons d run =>
      have hd : isDigit d = true := hrun.2 d (by simp)
      have hrest := ih (by simp) hrun.2
      rw [List.cons_append] at hrest
      rw [List.cons_append, List.cons_append, digitRun]
      · simp [hrun.1, hd, hrest, consTo]
      · rintro rfl
        cases hd

theorem plainRun_digits (n : Nat) (rest : List Char) :
    plainRun (digits n ++ '\n' :: rest) = some (digits n, '\n' :: rest) := by
  have hall : ∀ c ∈ digits n, isDigit c = true := List.all_eq_true.mp (Text.all_isDigit_digits n)
  obtain rfl | hpos := Nat.eq_zero_or_pos n
  · have hzero : digits 0 = ['0'] := by
      unfold digits
      rfl
    rw [hzero]
    rfl
  · obtain ⟨c, run, hcs⟩ := List.exists_cons_of_ne_nil (Text.digits_ne_nil n)
    have hc : c ≠ '0' := Text.head_digits hpos c (by simp [hcs])
    have hrun := digitRun_digits (Text.digits_ne_nil n) hall rest
    rw [hcs] at hrun ⊢
    rw [List.cons_append] at hrun ⊢
    rw [plainRun, hrun]
    exact fun _ heq => hc (List.cons.inj heq).1

/-- A written number begins with a digit. -/
theorem digits_ne_cons {x : Char} (hx : isDigit x = false) (n : Nat) (rest after : List Char) :
    digits n ++ '\n' :: rest ≠ x :: after := by
  intro heq
  obtain ⟨c, run, hcs⟩ := List.exists_cons_of_ne_nil (Text.digits_ne_nil n)
  have hc : isDigit c = true := List.all_eq_true.mp (Text.all_isDigit_digits n) c (by simp [hcs])
  rw [hcs, List.cons_append] at heq
  rw [(List.cons.inj heq).1, hx] at hc
  cases hc

theorem sign_digits (n : Nat) (rest : List Char) :
    sign (digits n ++ '\n' :: rest) = (false, digits n ++ '\n' :: rest) := by
  rw [sign]
  · exact digits_ne_cons (by decide) n rest
  · exact digits_ne_cons (by decide) n rest

/-- Digits alone are no number with a point or an exponent. -/
theorem readReal_digits (n : Nat) (rest : List Char) : readReal (digits n ++ '\n' :: rest) = none := by
  unfold readReal
  rw [sign_digits]
  simp only
  split
  · next heq => exact absurd heq (digits_ne_cons (by decide) n rest _)
  · next heq => exact absurd heq (digits_ne_cons (by decide) n rest _)
  · rw [plainRun_digits]
    rfl

theorem readInteger_digits {n : Nat} (h : n ≤ maxInteger) (rest : List Char) :
    readInteger (digits n ++ '\n' :: rest) = some ((n : Int), '\n' :: rest) := by
  have hradix : ∀ x after, digits n ++ '\n' :: rest = '0' :: x :: after → isDigit x = true ∨ x = '\n' := by
    intro x after heq
    have hleft := heq ▸ digitsLeft_digits n rest
    obtain ⟨-, hleft⟩ | hzero := hleft.cons
    · exact hleft.cons.imp And.left id
    · cases hzero
  unfold readInteger
  split
  iterate 3
    next heq => exact absurd (hradix _ _ heq) (by decide)
  rw [sign_digits]
  simp only [plainRun_digits, Option.bind_eq_bind, Option.bind_some, Text.digitsValue_digits]
  rw [if_pos]
  · rfl
  · rw [maxInteger] at h
    simp only [fits, signed, Bool.false_eq_true, if_false, Bool.and_eq_true, decide_eq_true_eq]
    omega

/-! ### Scalars -/

theorem readScalar_digits {n : Nat} (h : n ≤ maxInteger) (rest : List Char) :
    readScalar (digits n ++ '\n' :: rest) = some (.integer n, '\n' :: rest) := by
  have hstring : readString (digits n ++ '\n' :: rest) = none := by
    unfold readString
    split
    iterate 4
      next heq => exact absurd heq (digits_ne_cons (by decide) n rest _)
    rfl
  rw [readScalar, hstring]
  · simp only [(digitsLeft_digits n rest).dropDateTime, readReal_digits, readInteger_digits h]
    rfl
  · exact fun _ => digits_ne_cons (by decide) n rest _
  · exact fun _ => digits_ne_cons (by decide) n rest _

/-- What reads as a string begins with a quote. -/
theorem exists_of_readString {cs s after : List Char} (h : readString cs = some (s, after)) :
    ∃ q tail, cs = q :: tail ∧ (q = '"' ∨ q = '\'') := by
  unfold readString at h
  split at h
  · exact ⟨'"', _, rfl, Or.inl rfl⟩
  · exact ⟨'"', _, rfl, Or.inl rfl⟩
  · exact ⟨'\'', _, rfl, Or.inr rfl⟩
  · exact ⟨'\'', _, rfl, Or.inr rfl⟩
  · cases h

theorem readScalar_of_readString {cs s after : List Char} (h : readString cs = some (s, after)) :
    readScalar cs = some (.text (String.ofList s), after) := by
  obtain ⟨q, tail, rfl, hq⟩ := exists_of_readString h
  have hletter : q ≠ 't' ∧ q ≠ 'f' := by
    obtain rfl | rfl := hq
    · decide
    · decide
  rw [readScalar, h]
  · exact fun _ heq => hletter.1 (List.cons.inj heq).1
  · exact fun _ heq => hletter.2 (List.cons.inj heq).1

/-- What does not begin with a bracket or a brace is a scalar. -/
theorem readValue_eq_readScalar {c : Char} (hbracket : c ≠ '[') (hbrace : c ≠ '\x7b') (depth : Nat)
    (rest : List Char) : readValue (depth + 1) (c :: rest) = readScalar (c :: rest) := by
  simp only [readValue]
  split
  · next heq => exact absurd (List.cons.inj heq).1 hbracket
  · next heq => exact absurd (List.cons.inj heq).1 hbrace
  · rfl

namespace Plain

inductive IsScalar : Plain → Prop
  | text (s : String) : IsScalar (.text s)
  | number (n : Nat) (h : n ≤ maxInteger) : IsScalar (.number n)
  | bool (b : Bool) : IsScalar (.bool b)

theorem IsScalar.exists_scalar {p : Plain} (h : p.IsScalar) :
    ∃ c tail, p.scalar? = some (c :: tail) ∧ (isBlank c = false ∧ c ≠ '[' ∧ c ≠ '\x7b') ∧
      ∀ rest, readScalar (c :: tail ++ '\n' :: rest) = some (p.toValue, '\n' :: rest) := by
  cases h with
  | text s =>
    obtain ⟨q, tail, hcs, hq⟩ := exists_of_readString (readString_writeString s.toList [])
    cases hw : writeString s.toList with
    | nil =>
      rw [hw] at hcs
      obtain rfl | rfl := hq
      · cases hcs
      · cases hcs
    | cons c tail =>
      rw [hw, List.cons_append] at hcs
      obtain rfl : c = q := (List.cons.inj hcs).1
      refine ⟨c, tail, by rw [scalar?, hw], ?_, fun rest => ?_⟩
      · obtain rfl | rfl := hq
        · decide
        · decide
      · rw [← hw, readScalar_of_readString (readString_writeString s.toList rest), String.ofList_toList]
        rfl
  | number n h =>
    obtain ⟨c, run, hcs⟩ := List.exists_cons_of_ne_nil (Text.digits_ne_nil n)
    have hne : ∀ x, isDigit x = false → c ≠ x := by
      rintro x hx rfl
      exact digits_ne_cons hx n [] _ (by rw [hcs, List.cons_append])
    refine ⟨c, run, by rw [scalar?, hcs], ⟨?_, hne _ (by decide), hne _ (by decide)⟩, fun rest => ?_⟩
    · simp [isBlank, hne ' ' (by decide), hne '\t' (by decide)]
    · rw [← hcs, readScalar_digits h]
      rfl
  | bool b =>
    cases b with
    | true => exact ⟨'t', ['r', 'u', 'e'], rfl, by decide, fun _ => rfl⟩
    | false => exact ⟨'f', ['a', 'l', 's', 'e'], rfl, by decide, fun _ => rfl⟩

/-- A written scalar reads back, up to the end of its line. -/
theorem IsScalar.reads {p : Plain} (h : p.IsScalar) : ∃ cs, p.scalar? = some cs ∧
    ∀ rest, readValue maxDepth (skipBlanks (cs ++ '\n' :: rest)) = some (p.toValue, '\n' :: rest) := by
  obtain ⟨c, tail, hp, ⟨hblank, hbracket, hbrace⟩, hread⟩ := h.exists_scalar
  refine ⟨c :: tail, hp, fun rest => ?_⟩
  rw [List.cons_append, skipBlanks_cons hblank]
  show readValue (78 + 1) _ = _
  rw [readValue_eq_readScalar hbracket hbrace, ← List.cons_append, hread]

end Plain
end HealthSignal.Toml
