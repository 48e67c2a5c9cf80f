import HealthSignal.Proofs.Text.Digits
import HealthSignal.Json.Document
import HealthSignal.Json.Writer

/-! Written JSON objects read back: every string, number and Boolean, with its key and in its place. -/
namespace HealthSignal.Json
open Text (digits isDigit)

theorem hexValue?_hexDigit {n : Nat} (h : n < 16) : Text.hexValue? (hexDigit n) = some n := by
  have hall : ∀ n < 16, Text.hexValue? (hexDigit n) = some n := by decide
  exact hall n h

theorem stringBody_shortEscape {e c : Char} (he : shortEscape? e = some c) (rest : List Char) :
    stringBody ('\\' :: e :: rest) =
      (stringBody rest).map fun (ps, r) => (.char c :: ps, r) := by
  have hu : e ≠ 'u' := by
    rintro rfl
    simp [shortEscape?] at he
  rw [stringBody]
  · simp only [he, Option.bind_eq_bind, Option.bind_some, Option.pure_def]
    cases stringBody rest <;> rfl
  · rintro _ _ _ _ _ rfl
    exact absurd rfl hu

theorem stringBody_control {c : Char} (h : c.toNat < 0x20) (rest : List Char) :
    stringBody ('\\' :: 'u' :: '0' :: '0' :: hexDigit (c.toNat / 16) :: hexDigit (c.toNat % 16) ::
        rest) = (stringBody rest).map fun (ps, r) => (.unit c.toNat :: ps, r) := by
  have hword : Text.hexWord? '0' '0' (hexDigit (c.toNat / 16)) (hexDigit (c.toNat % 16)) =
      some c.toNat := by
    have h0 : Text.hexValue? '0' = some 0 := by decide
    simp only [Text.hexWord?, h0, hexValue?_hexDigit (show c.toNat / 16 < 16 by omega),
      hexValue?_hexDigit (show c.toNat % 16 < 16 by omega), Option.bind_eq_bind,
      Option.bind_some, Option.pure_def, Option.some.injEq]
    omega
  rw [stringBody]
  simp only [hword, Option.bind_eq_bind, Option.bind_some, Option.pure_def]
  cases stringBody rest <;> rfl

theorem content_control {c : Char} (h : c.toNat < 0x20) (ps : List Piece) :
    content (.unit c.toNat :: ps) = (content ps).map (c :: ·) := by
  have hhigh : isHighSurrogate c.toNat = false := by simp [isHighSurrogate]; omega
  have hlow : isLowSurrogate c.toNat = false := by simp [isLowSurrogate]; omega
  rw [content.eq_def]
  simp [hhigh, hlow]

theorem stringBody_plain {c : Char} (hcontrol : ¬ c.toNat < 0x20) (hquote : c ≠ '"')
    (hslash : c ≠ '\\') (rest : List Char) :
    stringBody (c :: rest) = (stringBody rest).map fun (ps, r) => (.char c :: ps, r) := by
  rw [stringBody]
  · rw [if_neg (by simp [hcontrol, hslash])]
    simp only [Option.bind_eq_bind, Option.pure_def]
    cases stringBody rest <;> rfl
  · exact hquote
  · rintro _ _ _ _ _ rfl
    exact absurd rfl hslash
  · rintro _ _ rfl
    exact absurd rfl hslash

/-- An escaped character is one piece of a string, which stands for the character. -/
theorem stringBody_escape (c : Char) :
    ∃ p, (∀ rest, stringBody (escape c ++ rest) =
        (stringBody rest).map fun (ps, r) => (p :: ps, r)) ∧
      ∀ ps, content (p :: ps) = (content ps).map (c :: ·) := by
  unfold escape
  split
  · exact ⟨.char _, stringBody_shortEscape (e := '"') rfl, fun ps => rfl⟩
  · exact ⟨.char _, stringBody_shortEscape (e := '\\') rfl, fun ps => rfl⟩
  · exact ⟨.char _, stringBody_shortEscape (e := 'b') rfl, fun ps => rfl⟩
  · exact ⟨.char _, stringBody_shortEscape (e := 'f') rfl, fun ps => rfl⟩
  · exact ⟨.char _, stringBody_shortEscape (e := 'n') rfl, fun ps => rfl⟩
  · exact ⟨.char _, stringBody_shortEscape (e := 'r') rfl, fun ps => rfl⟩
  · exact ⟨.char _, stringBody_shortEscape (e := 't') rfl, fun ps => rfl⟩
  · next hquote hslash _ _ _ _ _ =>
    split
    · next h => exact ⟨.unit c.toNat, stringBody_control h, content_control h⟩
    · next h => exact ⟨.char c, stringBody_plain h hquote hslash, fun ps => rfl⟩

theorem stringBody_escaped (s rest : List Char) :
    ∃ ps, stringBody (s.flatMap escape ++ '"' :: rest) = some (ps, rest) ∧ content ps = some s := by
  induction s with
  | nil => exact ⟨[], by simp [stringBody], rfl⟩
  | cons c s ih =>
    obtain ⟨ps, hbody, hcontent⟩ := ih
    obtain ⟨p, hp, hc⟩ := stringBody_escape c
    refine ⟨p :: ps, ?_, by rw [hc, hcontent]; rfl⟩
    rw [List.flatMap_cons, List.append_assoc, hp, hbody]
    rfl

/-- A quoted text is one token. -/
theorem tokens_quote (s : String) (rest : List Char) :
    tokens (quote s ++ rest) = (tokens rest).map (.text (some s.toList) :: ·) := by
  obtain ⟨ps, hbody, hcontent⟩ := stringBody_escaped s.toList rest
  have hquote : quote s ++ rest = '"' :: (s.toList.flatMap escape ++ '"' :: rest) := by
    simp [quote]
  rw [hquote, tokens]
  · have hspace : isSpace '"' = false := by decide
    have hsymbol : symbol? '"' = none := by decide
    simp only [hspace, hsymbol, Bool.false_eq_true, if_false, if_true]
    split <;> simp_all
  all_goals (intros; simp_all)

def Ended (rest : List Char) : Prop := ∀ c ∈ rest.head?, c = ',' ∨ c = '\x7d'

theorem Ended.not_isDigit {rest : List Char} (h : Ended rest) : ∀ c ∈ rest.head?, isDigit c = false := by
  intro c hc
  obtain rfl | rfl := h c hc <;> decide

theorem Ended.dropFraction? {rest : List Char} (h : Ended rest) :
    dropFraction? rest = some (false, rest) := by
  cases rest with
  | nil => rfl
  | cons c rest => obtain rfl | rfl := h c rfl <;> rfl

theorem Ended.dropExponent? {rest : List Char} (h : Ended rest) :
    dropExponent? rest = some (false, rest) := by
  cases rest with
  | nil => rfl
  | cons c rest => obtain rfl | rfl := h c rfl <;> rfl

theorem integerDigits?_digits (n : Nat) {rest : List Char} (h : Ended rest) :
    integerDigits? (digits n ++ rest) = some (digits n, rest) := by
  obtain rfl | hn := Nat.eq_zero_or_pos n
  · have h0 : digits 0 = ['0'] := by simp [digits, Text.digitChar]
    rw [h0]
    rfl
  · have hall : ∀ c ∈ digits n, isDigit c = true := by
      simpa using Text.all_isDigit_digits n
    have htake : (digits n ++ rest).takeWhile isDigit = digits n := by
      rw [List.takeWhile_append_of_pos hall]
      cases rest with
      | nil => simp
      | cons c rest => simp [h.not_isDigit c rfl]
    have hdrop : (digits n ++ rest).dropWhile isDigit = rest := by
      rw [List.dropWhile_append_of_pos hall]
      cases rest with
      | nil => rfl
      | cons c rest => simp [h.not_isDigit c rfl]
    unfold integerDigits?
    split
    · next tail heq =>
      have := Text.head_digits hn
      cases hd : digits n with
      | nil => exact absurd hd (Text.digits_ne_nil n)
      | cons d ds => simp_all
    · simp [htake, hdrop, Text.digits_ne_nil]

theorem readNumber?_digits (n : Nat) {rest : List Char} (h : Ended rest) :
    readNumber? (digits n ++ rest) = some (⟨false, digits n, true⟩, rest) := by
  have hminus : ∀ tail, digits n ++ rest ≠ '-' :: tail := by
    intro tail heq
    have hall := Text.all_isDigit_digits n
    cases hd : digits n with
    | nil => exact absurd hd (Text.digits_ne_nil n)
    | cons d ds =>
      rw [hd] at heq hall
      obtain rfl : d = '-' := by simp_all
      simp [isDigit] at hall
  simp [readNumber?, integerDigits?_digits n h, h.dropFraction?, h.dropExponent?]

theorem tokens_digits (n : Nat) {rest : List Char} (h : Ended rest) :
    tokens (digits n ++ rest) =
      (tokens rest).map (.number ⟨false, digits n, true⟩ :: ·) := by
  have hread := readNumber?_digits n h
  have hall := Text.all_isDigit_digits n
  cases hd : digits n with
  | nil => exact absurd hd (Text.digits_ne_nil n)
  | cons d ds =>
    rw [hd] at hread hall
    have hdigit : isDigit d = true := by simp at hall; exact hall.1
    have hne {c : Char} (hc : isDigit c = false) : d ≠ c := by
      rintro rfl
      simp [hdigit] at hc
    have hspace : isSpace d = false := by
      simp [isSpace, hne (c := ' ') rfl, hne (c := '\n') rfl, hne (c := '\t') rfl,
        hne (c := '\r') rfl]
    have hsymbol : symbol? d = none := by
      unfold symbol?
      split <;> first | rfl | exact absurd rfl (hne rfl)
    rw [List.cons_append, tokens]
    · simp only [hspace, hsymbol, hne (c := '"') rfl, Bool.false_eq_true, if_false]
      split <;> simp_all
    all_goals rintro _ rfl; exact absurd rfl (hne rfl)

def Scalar.token : Scalar → Token
  | .bool b => .bool b
  | .word n => .number ⟨false, digits n, true⟩
  | .text s => .text (some s.toList)

def Scalar.value : Scalar → Value
  | .bool b => .bool b
  | .word n => .number ⟨false, digits n, true⟩
  | .text s => .text (some s.toList)

theorem Scalar.tokens_write (s : Scalar) {rest : List Char} (h : Ended rest) :
    tokens (s.write ++ rest) = (tokens rest).map (s.token :: ·) := by
  match s with
  | .bool true => simp [write, token, tokens]
  | .bool false => simp [write, token, tokens]
  | .word n => exact tokens_digits n h
  | .text s => exact tokens_quote s rest

theorem tokens_symbol {c : Char} {t : Token} (h : symbol? c = some t) (rest : List Char) :
    tokens (c :: rest) = (tokens rest).map (t :: ·) := by
  have hspace : isSpace c = false := by
    unfold symbol? at h
    split at h <;> first | rfl | simp at h
  rw [tokens]
  · simp [hspace, h]
  all_goals
    rintro _ rfl
    simp [symbol?] at h

def memberTokens (m : String × Scalar) : List Token :=
  [.text (some m.1.toList), .colon, m.2.token]

theorem tokens_writeMember (m : String × Scalar) {rest : List Char} (h : Ended rest) :
    tokens (writeMember m ++ rest) = (tokens rest).map (memberTokens m ++ ·) := by
  rw [writeMember, List.append_assoc, tokens_quote, List.cons_append,
    tokens_symbol (t := .colon) rfl, Scalar.tokens_write m.2 h]
  simp only [Option.map_map]
  rfl

def membersTokens : List (String × Scalar) → List Token
  | [] => [.closeObject]
  | [m] => memberTokens m ++ [.closeObject]
  | m :: m' :: ms => memberTokens m ++ .comma :: membersTokens (m' :: ms)

theorem tokens_writeMembers (ms : List (String × Scalar)) :
    tokens (List.intercalate [','] (ms.map writeMember) ++ ['\x7d']) = some (membersTokens ms) := by
  have hclose : tokens ['\x7d'] = some [.closeObject] := by
    rw [tokens_symbol (t := .closeObject) rfl]
    simp [tokens]
  induction ms with
  | nil => simpa [List.intercalate, membersTokens] using hclose
  | cons m ms ih =>
    cases ms with
    | nil =>
      have hended : Ended ['\x7d'] := by simp [Ended]
      simp [List.intercalate, membersTokens, tokens_writeMember m hended, hclose]
    | cons m' ms =>
      have hsplit : List.intercalate [','] ((m :: m' :: ms).map writeMember) ++ ['\x7d'] =
          writeMember m ++ ',' ::
            (List.intercalate [','] ((m' :: ms).map writeMember) ++ ['\x7d']) := by
        simp [List.intercalate]
      have hended (rest : List Char) : Ended (',' :: rest) := by simp [Ended]
      rw [hsplit, tokens_writeMember m (hended _), tokens_symbol (t := .comma) rfl, ih]
      rfl

theorem readValue_token (s : Scalar) (rest : List Token) :
    readValue (s.token :: rest) = some (s.value, rest) := by
  cases s <;> rfl

theorem readMembers_last (m : String × Scalar) (rest : List Token) :
    readMembers (memberTokens m ++ .closeObject :: rest) =
      some ([(some m.1.toList, m.2.value)], rest) := by
  have hvalue := readValue_token m.2 (.closeObject :: rest)
  simp only [memberTokens, List.cons_append, List.nil_append]
  rw [readMembers]
  split <;> simp_all

theorem readMembers_more (m : String × Scalar) (rest : List Token) :
    readMembers (memberTokens m ++ .comma :: rest) =
      (readMembers rest).map fun (ms, rest) => ((some m.1.toList, m.2.value) :: ms, rest) := by
  have hvalue := readValue_token m.2 (.comma :: rest)
  simp only [memberTokens, List.cons_append, List.nil_append]
  rw [readMembers]
  split <;> simp_all

theorem readMembers_membersTokens {ms : List (String × Scalar)} (h : ms ≠ []) :
    readMembers (membersTokens ms) =
      some (ms.map fun m => (some m.1.toList, m.2.value), []) := by
  induction ms with
  | nil => exact absurd rfl h
  | cons m ms ih =>
    cases ms with
    | nil => exact readMembers_last m []
    | cons m' ms =>
      rw [membersTokens, readMembers_more, ih (by simp)]
      rfl

/-- The tokens of some members start with a key. -/
theorem membersTokens_cons (m : String × Scalar) (ms : List (String × Scalar)) :
    ∃ rest, membersTokens (m :: ms) = .text (some m.1.toList) :: rest := by
  cases ms with
  | nil => exact ⟨_, rfl⟩
  | cons m' ms => exact ⟨_, rfl⟩

/-- A written object reads back with all its members. -/
theorem parse?_writeObject {ms : List (String × Scalar)} (h : ms ≠ []) :
    Document.parse? (writeObject ms) =
      some (.object (ms.map fun m => (some m.1.toList, m.2.value))) := by
  have htokens : tokens (writeObject ms).toList = some (.openObject :: membersTokens ms) := by
    rw [writeObject, String.toList_ofList, List.cons_append, tokens_symbol (t := .openObject) rfl,
      tokens_writeMembers]
    rfl
  have hread := readMembers_membersTokens h
  obtain ⟨m, ms', rfl⟩ := List.exists_cons_of_ne_nil h
  obtain ⟨rest, hrest⟩ := membersTokens_cons m ms'
  rw [hrest] at htokens hread
  simp only [Document.parse?, htokens, Option.bind_some, Document.ofTokens?, hread, complete]

end HealthSignal.Json
