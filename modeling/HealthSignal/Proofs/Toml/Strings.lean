import HealthSignal.Toml.Scalar
import HealthSignal.Toml.StringForm

/-! Written TOML strings read back, in whichever form they are written. -/
namespace HealthSignal.Toml
open StringForm (escape escapeBody)

theorem isPlain_of_not_control {c : Char} (h : isControl c = false) (hline : c ≠ '\n') : isPlain c = true := by
  by_cases htab : c = '\t'
  · rw [htab]
    rfl
  · simp [isControl, htab, hline] at h
    simp [isPlain, h]

/-! ### Single characters -/

theorem basicBody_plain {c : Char} (hc : isPlain c = true) (hquote : c ≠ '"') (hslash : c ≠ '\\')
    (rest : List Char) : basicBody (c :: rest) = consTo c (basicBody rest) := by
  rw [basicBody]
  · rw [if_pos ⟨hc, hslash⟩]
  all_goals simp [hquote, hslash]

/-- A double quote that does not begin three of them belongs to the text. -/
theorem multiBasicBody_quote {rest : List Char} (h : ∀ tail, rest ≠ '"' :: '"' :: tail) :
    multiBasicBody .none ('"' :: rest) = consTo '"' (multiBasicBody .none rest) := by
  rw [multiBasicBody]
  · rw [if_pos (by decide)]
  all_goals simp [h]

theorem multiBasicBody_plain {c : Char} (hc : isPlain c = true) (hquote : c ≠ '"') (hslash : c ≠ '\\')
    (rest : List Char) : multiBasicBody .none (c :: rest) = consTo c (multiBasicBody .none rest) := by
  have hbreak : c ≠ '\n' ∧ c ≠ '\r' := by
    constructor <;> rintro rfl <;> cases hc
  rw [multiBasicBody]
  · rw [if_pos ⟨hc, hslash⟩]
  all_goals simp [hquote, hslash, hbreak]

/-- A single quote that does not begin three of them belongs to the text. -/
theorem multiLiteralBody_quote {rest : List Char} (h : ∀ tail, rest ≠ '\'' :: '\'' :: tail) :
    multiLiteralBody ('\'' :: rest) = consTo '\'' (multiLiteralBody rest) := by
  rw [multiLiteralBody]
  · rw [if_pos (by decide)]
  all_goals simp [h]

theorem multiLiteralBody_plain {c : Char} (hc : isPlain c = true) (hquote : c ≠ '\'')
    (rest : List Char) : multiLiteralBody (c :: rest) = consTo c (multiLiteralBody rest) := by
  have hbreak : c ≠ '\n' ∧ c ≠ '\r' := by
    constructor <;> rintro rfl <;> cases hc
  rw [multiLiteralBody]
  · rw [if_pos hc]
  all_goals simp [hquote, hbreak]

/-- Where a quote belongs to the text unless it begins three of them, up to two quotes before another character
do. -/
theorem read_quotes {body : Reader (List Char)} {q : Char}
    (hbody : ∀ rest, (∀ tail, rest ≠ q :: q :: tail) → body (q :: rest) = consTo q (body rest))
    {run : Nat} (hrun : run ≤ 2) {c : Char} (hc : c ≠ q) (rest : List Char) :
    body (List.replicate run q ++ c :: rest) =
      (body (c :: rest)).map fun (s, after) => (List.replicate run q ++ s, after) := by
  obtain rfl | rfl | rfl : run = 0 ∨ run = 1 ∨ run = 2 := by omega
  · simp
  · show body (q :: c :: rest) = _
    rw [hbody _ (by simp [hc])]
    rfl
  · show body (q :: q :: c :: rest) = _
    rw [hbody _ (by simp [hc]), hbody _ (by simp [hc])]
    cases body (c :: rest) <;> rfl

/-! ### Escapes -/

theorem hexValue?_hexDigit {n : Nat} (h : n < 16) : Text.hexValue? (StringForm.hexDigit n) = some n := by
  have hall : ∀ n < 16, Text.hexValue? (StringForm.hexDigit n) = some n := by decide
  exact hall n h

/-- The code of a control character reads back. -/
theorem scalar?_control {c : Char} (h : isControl c = true) :
    (Text.hexWord? '0' '0' (StringForm.hexDigit (c.toNat / 16)) (StringForm.hexDigit (c.toNat % 16))).bind
      scalar? = some c := by
  have hlt : c.toNat < 128 := by
    simp [isControl] at h
    omega
  have h0 : Text.hexValue? '0' = some 0 := by decide
  have hword : Text.hexWord? '0' '0' (StringForm.hexDigit (c.toNat / 16)) (StringForm.hexDigit (c.toNat % 16)) =
      some c.toNat := by
    simp only [Text.hexWord?, h0, hexValue?_hexDigit (show c.toNat / 16 < 16 by omega),
      hexValue?_hexDigit (show c.toNat % 16 < 16 by omega), Option.bind_eq_bind, Option.bind_some,
      Option.pure_def, Option.some.injEq]
    omega
  rw [hword, Option.bind_some, scalar?, if_pos (by omega), Char.ofNat_toNat]

/-- How an escaped character is written. -/
theorem escape_cases (c : Char) :
    (∃ e, escape c = ['\\', e] ∧ shortEscape? e = some c) ∨
    (∃ a b, escape c = ['\\', 'u', '0', '0', a, b] ∧ (Text.hexWord? '0' '0' a b).bind scalar? = some c) ∨
    escape c = [c] ∧ c ≠ '\\' ∧ isControl c = false := by
  unfold escape
  split
  · exact Or.inl ⟨'b', rfl, rfl⟩
  · exact Or.inl ⟨'t', rfl, rfl⟩
  · exact Or.inl ⟨'f', rfl, rfl⟩
  · exact Or.inl ⟨'r', rfl, rfl⟩
  · exact Or.inl ⟨'\\', rfl, rfl⟩
  · next hslash =>
    split
    · next hc => exact Or.inr (Or.inl ⟨_, _, rfl, scalar?_control hc⟩)
    · next hc => exact Or.inr (Or.inr ⟨rfl, hslash, by simpa using hc⟩)

/-- An escaped character does not begin with a quote or break the line. -/
theorem exists_escape_eq_cons {c : Char} (hquote : c ≠ '"') (hline : c ≠ '\n') :
    ∃ d tail, escape c = d :: tail ∧ d ≠ '"' ∧ d ≠ '\n' ∧ d ≠ '\r' := by
  obtain ⟨e, he, -⟩ | ⟨a, b, he, -⟩ | ⟨he, -, hc⟩ := escape_cases c
  · exact ⟨_, _, he, by decide⟩
  · exact ⟨_, _, he, by decide⟩
  · refine ⟨_, _, he, hquote, hline, ?_⟩
    rintro rfl
    cases hc

/-- The letter of a short escape begins no long one and joins no lines. -/
theorem ne_of_shortEscape? {e c : Char} (h : shortEscape? e = some c) :
    e ≠ 'u' ∧ e ≠ 'U' ∧ e ≠ '\n' ∧ e ≠ '\r' ∧ isBlank e = false := by
  refine ⟨?_, ?_, ?_, ?_, ?_⟩
  iterate 4
    rintro rfl
    cases h
  rw [Bool.eq_false_iff]
  intro hblank
  obtain rfl | rfl : e = ' ' ∨ e = '\t' := by simpa [isBlank] using hblank
  · cases h
  · cases h

theorem basicBody_escape {c : Char} (hquote : c ≠ '"') (hline : c ≠ '\n') (rest : List Char) :
    basicBody (escape c ++ rest) = consTo c (basicBody rest) := by
  obtain ⟨e, he, hc⟩ | ⟨a, b, he, hc⟩ | ⟨he, hslash, hc⟩ := escape_cases c
  · obtain ⟨hu, hU, -⟩ := ne_of_shortEscape? hc
    rw [he, List.cons_append, List.cons_append, List.nil_append, basicBody]
    · simp only [hc, Option.bind_eq_bind, Option.bind_some]
    all_goals simp [hu, hU]
  · obtain ⟨n, hn, hscalar⟩ := Option.bind_eq_some_iff.mp hc
    rw [he]
    simp only [List.cons_append, List.nil_append, basicBody, hn, hscalar, Option.bind_eq_bind, Option.bind_some]
  · rw [he]
    exact basicBody_plain (isPlain_of_not_control hc hline) hquote hslash rest

theorem multiBasicBody_escape {c : Char} (hquote : c ≠ '"') (hline : c ≠ '\n') (rest : List Char) :
    multiBasicBody .none (escape c ++ rest) = consTo c (multiBasicBody .none rest) := by
  obtain ⟨e, he, hc⟩ | ⟨a, b, he, hc⟩ | ⟨he, hslash, hc⟩ := escape_cases c
  · obtain ⟨hu, hU, hn, hr, hblank⟩ := ne_of_shortEscape? hc
    rw [he, List.cons_append, List.cons_append, List.nil_append, multiBasicBody]
    · simp only [hc, hblank, Bool.false_eq_true, if_false, Option.bind_eq_bind, Option.bind_some]
    all_goals simp [hu, hU, hn, hr]
  · obtain ⟨n, hn, hscalar⟩ := Option.bind_eq_some_iff.mp hc
    rw [he]
    simp only [List.cons_append, List.nil_append, multiBasicBody, hn, hscalar, Option.bind_eq_bind,
      Option.bind_some]
  · rw [he]
    exact multiBasicBody_plain (isPlain_of_not_control hc hline) hquote hslash rest

/-! ### Bodies -/

theorem escapeBody_other {c : Char} (hquote : c ≠ '"') (hline : c ≠ '\n') (multi : Bool) (run : Nat)
    (cs : List Char) : escapeBody multi run (c :: cs) = escape c ++ escapeBody multi 0 cs := by
  rw [escapeBody]
  · exact hquote
  · exact hline

theorem basicBody_escapeBody (run : Nat) (cs rest : List Char) :
    basicBody (escapeBody false run cs ++ '"' :: rest) = some (cs, rest) := by
  induction cs generalizing run with
  | nil => rfl
  | cons c cs ih =>
    by_cases hquote : c = '"'
    · subst hquote
      simp [escapeBody, basicBody, shortEscape?, ih, consTo]
    · by_cases hline : c = '\n'
      · subst hline
        simp [escapeBody, basicBody, shortEscape?, ih, consTo]
      · rw [escapeBody_other hquote hline, List.append_assoc, basicBody_escape hquote hline, ih]
        rfl

/-- A body does not begin with a carriage return, with a line break only if its text has one, and with a quote
only on several lines. -/
theorem head_escapeBody (multi : Bool) (run : Nat) (cs : List Char) :
    ∀ d ∈ (escapeBody multi run cs).head?,
      d ≠ '\r' ∧ ('\n' ∉ cs → d ≠ '\n') ∧ (multi = false → d ≠ '"') := by
  cases cs with
  | nil => simp [escapeBody]
  | cons c cs =>
    by_cases hquote : c = '"'
    · subst hquote
      cases multi <;> simp only [escapeBody] <;> split <;> simp_all
    · by_cases hline : c = '\n'
      · subst hline
        cases multi <;> simp [escapeBody]
      · obtain ⟨d, tail, hd, hdquote, hdline, hdreturn⟩ := exists_escape_eq_cons hquote hline
        rw [escapeBody_other hquote hline, hd]
        simp [hdquote, hdline, hdreturn]

/-- A body of several lines reads back up to its closing quotes, with the quotes right before it. -/
theorem multiBasicBody_escapeBody {run : Nat} (hrun : run ≤ 2) (cs rest : List Char) :
    multiBasicBody .none (List.replicate run '"' ++ (escapeBody true run cs ++ '"' :: '"' :: '"' :: '\n' :: rest)) =
      some (List.replicate run '"' ++ cs, '\n' :: rest) := by
  -- The quotes before the body go with it: how the next quote is written, and read, depends on them.
  induction cs generalizing run with
  | nil =>
    obtain rfl | rfl | rfl : run = 0 ∨ run = 1 ∨ run = 2 := by omega
    · rfl
    · rfl
    · rfl
  | cons c cs ih =>
    have hzero : multiBasicBody .none (escapeBody true 0 cs ++ '"' :: '"' :: '"' :: '\n' :: rest) =
      some (cs, '\n' :: rest) := ih (Nat.zero_le 2)
    by_cases hquote : c = '"'
    · subst hquote
      by_cases hlt : run < 2
      · have hmore : run + 1 ≤ 2 := hlt
        simpa [escapeBody, hlt, List.replicate_succ', List.append_assoc] using ih hmore
      · have hbody : escapeBody true run ('"' :: cs) = '\\' :: '"' :: escapeBody true 0 cs := by
          simp [escapeBody, hlt]
        rw [hbody, List.cons_append, read_quotes (fun _ => multiBasicBody_quote) hrun (by decide)]
        simp [multiBasicBody, isBlank, shortEscape?, hzero, consTo]
    · by_cases hline : c = '\n'
      · subst hline
        have hbody : escapeBody true run ('\n' :: cs) = '\n' :: escapeBody true 0 cs := by simp [escapeBody]
        rw [hbody, List.cons_append, read_quotes (fun _ => multiBasicBody_quote) hrun (by decide), multiBasicBody,
          hzero]
        · rfl
        all_goals simp
      · obtain ⟨d, tail, hd, hdquote, -⟩ := exists_escape_eq_cons hquote hline
        rw [escapeBody_other hquote hline, List.append_assoc, hd, List.cons_append,
          read_quotes (fun _ => multiBasicBody_quote) hrun hdquote, ← List.cons_append, ← hd,
          multiBasicBody_escape hquote hline, hzero]
        rfl

theorem le_longestRun (q : Char) (run : Nat) (cs : List Char) : run ≤ longestRun q run cs := by
  fun_induction longestRun q run cs with
  | case1 => exact Nat.le_refl _
  | case2 run rest ih => omega
  | case3 run c rest hc ih => exact Nat.le_max_left _ _

theorem not_mem_of_longestRun {q : Char} {run : Nat} {cs : List Char} (h : longestRun q run cs = 0) : q ∉ cs := by
  fun_induction longestRun q run cs with
  | case1 => simp
  | case2 run rest ih =>
    have := le_longestRun q (run + 1) rest
    omega
  | case3 run c rest hc ih =>
    simp only [List.mem_cons, not_or]
    exact ⟨fun heq => hc heq.symm, ih (by omega)⟩

theorem literalBody_raw {cs : List Char} (hplain : ∀ c ∈ cs, isPlain c = true) (hquote : '\'' ∉ cs)
    (rest : List Char) : literalBody (cs ++ '\'' :: rest) = some (cs, rest) := by
  induction cs with
  | nil => rfl
  | cons c cs ih =>
    rw [List.forall_mem_cons] at hplain
    rw [List.mem_cons, not_or] at hquote
    rw [List.cons_append, literalBody, if_pos hplain.1, ih hplain.2 hquote.2]
    · rfl
    · exact fun heq => hquote.1 heq.symm

theorem multiLiteralBody_raw {run : Nat} {cs : List Char} (hrun : longestRun '\'' run cs < 3)
    (hcontrol : ∀ c ∈ cs, isControl c = false) (rest : List Char) :
    multiLiteralBody (List.replicate run '\'' ++ (cs ++ '\'' :: '\'' :: '\'' :: '\n' :: rest)) =
      some (List.replicate run '\'' ++ cs, '\n' :: rest) := by
  induction cs generalizing run with
  | nil =>
    obtain rfl | rfl | rfl : run = 0 ∨ run = 1 ∨ run = 2 := by
      rw [longestRun] at hrun
      omega
    · rfl
    · rfl
    · rfl
  | cons c cs ih =>
    rw [List.forall_mem_cons] at hcontrol
    rw [longestRun] at hrun
    split at hrun
    · next hquote =>
      subst hquote
      have := ih hrun hcontrol.2
      simpa [List.replicate_succ', List.append_assoc] using this
    · next hquote =>
      have hzero : multiLiteralBody (cs ++ '\'' :: '\'' :: '\'' :: '\n' :: rest) = some (cs, '\n' :: rest) :=
        ih (show longestRun '\'' 0 cs < 3 by omega) hcontrol.2
      rw [List.cons_append, read_quotes (fun _ => multiLiteralBody_quote) (by omega) hquote]
      by_cases hline : c = '\n'
      · rw [hline, multiLiteralBody, hzero]
        rfl
      · rw [multiLiteralBody_plain (isPlain_of_not_control hcontrol.1 hline) hquote, hzero]
        rfl

/-! ### Strings -/

/-- The forms that texts are written in, with what a text is free of that is written as it is. -/
theorem ofText_cases (cs : List Char) :
    StringForm.ofText cs = .escaped StringForm.basicQuotes ∨
    StringForm.ofText cs = .escaped StringForm.multiBasicQuotes ∨
    (StringForm.ofText cs = .raw StringForm.literalQuotes ∧
      (∀ c ∈ cs, isPlain c = true) ∧ '\'' ∉ cs) ∨
    StringForm.ofText cs = .raw StringForm.multiLiteralQuotes ∧
      (∀ c ∈ cs, isControl c = false) ∧ longestRun '\'' 0 cs < 3 := by
  have hclean : (!cs.any isControl) = true → ∀ c ∈ cs, isControl c = false := by simp
  unfold StringForm.ofText
  simp only
  split
  · exact Or.inl rfl
  · split
    · next h =>
      simp only [Bool.and_eq_true, beq_iff_eq] at h
      obtain ⟨⟨hcontrol, hquote⟩, hline⟩ := h
      refine Or.inr (Or.inr (Or.inl ⟨rfl, fun c hc => ?_, not_mem_of_longestRun hquote⟩))
      refine isPlain_of_not_control (hclean hcontrol c hc) ?_
      rintro rfl
      simp [hc] at hline
    · split
      · exact Or.inr (Or.inl rfl)
      · split
        · next h =>
          simp only [Bool.and_eq_true, decide_eq_true_eq] at h
          exact Or.inr (Or.inr (Or.inr ⟨rfl, hclean h.1, h.2⟩))
        · split
          · exact Or.inr (Or.inl rfl)
          · exact Or.inl rfl

/-- After the opening quotes of several lines, a body is read from its beginning, whether a line break stands
before it or not. -/
theorem readString_opening {q : Char} {read : Reader (List Char)} {cs body : List Char}
    (hread : ∀ start, readString (q :: q :: q :: start) = read (dropNewline start))
    (hfirst : '\n' ∉ cs → ∀ c ∈ body.head?, c ≠ '\n' ∧ c ≠ '\r') :
    readString (StringForm.opening [q, q, q] cs ++ body) = read body := by
  by_cases hline : '\n' ∈ cs
  · have hopening : StringForm.opening [q, q, q] cs = [q, q, q, '\n'] := by simp [StringForm.opening, hline]
    rw [hopening]
    exact hread ('\n' :: body)
  · have hopening : StringForm.opening [q, q, q] cs = [q, q, q] := by simp [StringForm.opening, hline]
    have hbody := hfirst hline
    have hdrop : dropNewline body = body := by
      unfold dropNewline newline?
      split
      · simp at hbody
      · simp at hbody
      · rfl
    rw [hopening]
    exact (hread body).trans (congrArg read hdrop)

theorem readString_basic (cs rest : List Char) :
    readString (StringForm.write (.escaped StringForm.basicQuotes) cs ++ '\n' :: rest) =
      some (cs, '\n' :: rest) := by
  have hstart : ∀ tail, escapeBody false 0 cs ++ '"' :: '\n' :: rest ≠ '"' :: '"' :: tail := by
    have hhead := head_escapeBody false 0 cs
    cases hbody : escapeBody false 0 cs with
    | nil => simp
    | cons d body =>
      rw [hbody] at hhead
      simpa using fun _ heq => absurd heq ((hhead d rfl).2.2 rfl)
  have htext : StringForm.write (.escaped StringForm.basicQuotes) cs ++ '\n' :: rest =
      '"' :: (escapeBody false 0 cs ++ '"' :: '\n' :: rest) := by
    simp [StringForm.write, StringForm.opening, StringForm.basicQuotes]
  rw [htext, readString, basicBody_escapeBody]
  exact hstart

theorem readString_multiBasic (cs rest : List Char) :
    readString (StringForm.write (.escaped StringForm.multiBasicQuotes) cs ++ '\n' :: rest) =
      some (cs, '\n' :: rest) := by
  have hfirst : '\n' ∉ cs → ∀ c ∈ (escapeBody true 0 cs ++ '"' :: '"' :: '"' :: '\n' :: rest).head?,
      c ≠ '\n' ∧ c ≠ '\r' := by
    intro hline c hc
    have hhead := head_escapeBody true 0 cs
    cases hbody : escapeBody true 0 cs with
    | nil =>
      obtain rfl : '"' = c := by simpa [hbody] using hc
      decide
    | cons d body =>
      obtain rfl : d = c := by simpa [hbody] using hc
      rw [hbody] at hhead
      exact ⟨(hhead d rfl).2.1 hline, (hhead d rfl).1⟩
  rw [StringForm.write, List.append_assoc, List.append_assoc]
  exact (readString_opening (fun _ => rfl) hfirst).trans (multiBasicBody_escapeBody (Nat.zero_le 2) cs rest)

theorem readString_literal {cs : List Char} (hplain : ∀ c ∈ cs, isPlain c = true) (hquote : '\'' ∉ cs)
    (rest : List Char) :
    readString (StringForm.write (.raw StringForm.literalQuotes) cs ++ '\n' :: rest) =
      some (cs, '\n' :: rest) := by
  have hstart : ∀ tail, cs ++ '\'' :: '\n' :: rest ≠ '\'' :: '\'' :: tail := by
    cases cs with
    | nil => simp
    | cons c cs => simpa using fun _ heq => absurd (List.mem_cons.mpr (Or.inl heq.symm)) hquote
  have htext : StringForm.write (.raw StringForm.literalQuotes) cs ++ '\n' :: rest =
      '\'' :: (cs ++ '\'' :: '\n' :: rest) := by
    simp [StringForm.write, StringForm.opening, StringForm.literalQuotes]
  rw [htext, readString, literalBody_raw hplain hquote]
  exact hstart

theorem readString_multiLiteral {cs : List Char} (hcontrol : ∀ c ∈ cs, isControl c = false)
    (hrun : longestRun '\'' 0 cs < 3) (rest : List Char) :
    readString (StringForm.write (.raw StringForm.multiLiteralQuotes) cs ++ '\n' :: rest) =
      some (cs, '\n' :: rest) := by
  have hfirst : '\n' ∉ cs → ∀ c ∈ (cs ++ '\'' :: '\'' :: '\'' :: '\n' :: rest).head?,
      c ≠ '\n' ∧ c ≠ '\r' := by
    intro hline c hc
    cases cs with
    | nil =>
      obtain rfl : '\'' = c := by simpa using hc
      decide
    | cons d cs =>
      obtain rfl : d = c := by simpa using hc
      constructor
      · rintro rfl
        simp at hline
      · rintro rfl
        exact absurd (hcontrol '\r' (by simp)) (by decide)
  rw [StringForm.write, List.append_assoc, List.append_assoc]
  exact (readString_opening (fun _ => rfl) hfirst).trans (multiLiteralBody_raw hrun hcontrol rest)

/-- A written string reads back, up to the end of its line. -/
theorem readString_writeString (cs rest : List Char) :
    readString (writeString cs ++ '\n' :: rest) = some (cs, '\n' :: rest) := by
  unfold writeString
  obtain h | h | ⟨h, hplain, hquote⟩ | ⟨h, hcontrol, hrun⟩ := ofText_cases cs
  · rw [h, readString_basic]
  · rw [h, readString_multiBasic]
  · rw [h, readString_literal hplain hquote]
  · rw [h, readString_multiLiteral hcontrol hrun]

end HealthSignal.Toml
