import HealthSignal.Text.Decimal
import HealthSignal.Text.Radix

/-!
JSON tokens. A text is a well-formed token sequence or nothing; a string token that holds an unpaired
surrogate escape has no content but is a token all the same.
-/
namespace HealthSignal.Json
open Text (hexWord? isDigit)

structure Number where
  negative : Bool
  integer : List Char
  whole : Bool
  deriving DecidableEq, Repr

inductive Token
  | openObject
  | closeObject
  | openArray
  | closeArray
  | colon
  | comma
  | null
  | bool (value : Bool)
  | number (value : Number)
  | text (content : Option (List Char))
  deriving DecidableEq, Repr

def isSpace (c : Char) : Bool := c == ' ' || c == '\n' || c == '\t' || c == '\r'

inductive Piece
  | char (c : Char)
  | unit (n : Nat)
  deriving DecidableEq, Repr

def isHighSurrogate (n : Nat) : Bool := 0xD800 ≤ n && n ≤ 0xDBFF

def isLowSurrogate (n : Nat) : Bool := 0xDC00 ≤ n && n ≤ 0xDFFF

/-- Joins surrogate pairs; `none` if one stands alone. -/
def content : List Piece → Option (List Char)
  | [] => some []
  | .char c :: rest => (content rest).map (c :: ·)
  | .unit n :: rest =>
    if isHighSurrogate n then
      match rest with
      | .unit m :: rest =>
        if isLowSurrogate m then
          (content rest).map (Char.ofNat (0x10000 + (n - 0xD800) * 0x400 + (m - 0xDC00)) :: ·)
        else none
      | _ => none
    else if isLowSurrogate n then none
    else (content rest).map (Char.ofNat n :: ·)

def shortEscape? : Char → Option Char
  | '"' => some '"'
  | '\\' => some '\\'
  | '/' => some '/'
  | 'b' => some '\x08'
  | 'f' => some '\x0c'
  | 'n' => some '\n'
  | 'r' => some '\r'
  | 't' => some '\t'
  | _ => none

def stringBody : List Char → Option (List Piece × List Char)
  | [] => none
  | '"' :: rest => some ([], rest)
  | '\\' :: 'u' :: a :: b :: c :: d :: rest => do
    let n ← hexWord? a b c d
    let (pieces, rest) ← stringBody rest
    return (.unit n :: pieces, rest)
  | '\\' :: e :: rest => do
    let c ← shortEscape? e
    let (pieces, rest) ← stringBody rest
    return (.char c :: pieces, rest)
  | c :: rest =>
    if c.toNat < 0x20 ∨ c = '\\' then none
    else do
      let (pieces, rest) ← stringBody rest
      return (.char c :: pieces, rest)

theorem stringBody_length {cs rest : List Char} {pieces : List Piece}
    (h : stringBody cs = some (pieces, rest)) : rest.length < cs.length := by
  fun_induction stringBody cs generalizing pieces rest with
  | case1 => simp at h
  | case2 => simp_all
  | case3 a b c d tail ih =>
    simp only [Option.bind_eq_bind, Option.bind_eq_some_iff, Prod.exists, Option.pure_def,
      Option.some.injEq, Prod.mk.injEq] at h
    obtain ⟨_, _, _, _, h, _, rfl⟩ := h
    have := ih h
    simp only [List.length_cons]; omega
  | case4 e tail _ ih =>
    simp only [Option.bind_eq_bind, Option.bind_eq_some_iff, Prod.exists, Option.pure_def,
      Option.some.injEq, Prod.mk.injEq] at h
    obtain ⟨_, _, _, _, h, _, rfl⟩ := h
    have := ih h
    simp only [List.length_cons]; omega
  | case5 => simp at h
  | case6 c tail _ _ _ _ ih =>
    simp only [Option.bind_eq_bind, Option.bind_eq_some_iff, Prod.exists, Option.pure_def,
      Option.some.injEq, Prod.mk.injEq] at h
    obtain ⟨_, _, h, _, rfl⟩ := h
    have := ih h
    simp only [List.length_cons]; omega

def dropFraction? : List Char → Option (Bool × List Char)
  | '.' :: c :: rest => if isDigit c then some (true, rest.dropWhile isDigit) else none
  | ['.'] => none
  | cs => some (false, cs)

def dropExponentDigits? : List Char → Option (Bool × List Char)
  | c :: rest => if isDigit c then some (true, rest.dropWhile isDigit) else none
  | [] => none

def dropExponent? : List Char → Option (Bool × List Char)
  | c :: rest =>
    if c = 'e' ∨ c = 'E' then
      match rest with
      | '+' :: rest => dropExponentDigits? rest
      | '-' :: rest => dropExponentDigits? rest
      | _ => dropExponentDigits? rest
    else some (false, c :: rest)
  | [] => some (false, [])

/-- The integer digits of a number: a lone zero, or a run that does not start with one. -/
def integerDigits? : List Char → Option (List Char × List Char)
  | '0' :: rest => some (['0'], rest)
  | cs =>
    let run := cs.takeWhile isDigit
    if run = [] then none else some (run, cs.dropWhile isDigit)

def readNumber? (cs : List Char) : Option (Number × List Char) := do
  let (negative, body) := match cs with
    | '-' :: rest => (true, rest)
    | _ => (false, cs)
  let (integer, rest) ← integerDigits? body
  let (fractional, rest) ← dropFraction? rest
  let (exponent, rest) ← dropExponent? rest
  return (⟨negative, integer, !fractional && !exponent⟩, rest)

theorem dropFraction?_length {cs rest : List Char} {b : Bool}
    (h : dropFraction? cs = some (b, rest)) : rest.length ≤ cs.length := by
  unfold dropFraction? at h
  split at h
  · split at h
    · simp only [Option.some.injEq, Prod.mk.injEq] at h
      obtain ⟨_, rfl⟩ := h
      have := (List.dropWhile_sublist isDigit (l := ‹List Char›)).length_le
      simp only [List.length_cons]; omega
    · simp at h
  · simp at h
  · simp_all

theorem dropExponentDigits?_length {cs rest : List Char} {b : Bool}
    (h : dropExponentDigits? cs = some (b, rest)) : rest.length ≤ cs.length := by
  unfold dropExponentDigits? at h
  split at h
  · split at h
    · simp only [Option.some.injEq, Prod.mk.injEq] at h
      obtain ⟨_, rfl⟩ := h
      have := (List.dropWhile_sublist isDigit (l := ‹List Char›)).length_le
      simp only [List.length_cons]; omega
    · simp at h
  · simp at h

theorem dropExponent?_length {cs rest : List Char} {b : Bool}
    (h : dropExponent? cs = some (b, rest)) : rest.length ≤ cs.length := by
  unfold dropExponent? at h
  split at h
  · split at h
    · split at h <;>
      · have := dropExponentDigits?_length h
        simp only [List.length_cons] at this ⊢; omega
    · simp_all
  · simp_all

theorem integerDigits?_length {cs rest run : List Char}
    (h : integerDigits? cs = some (run, rest)) : rest.length < cs.length := by
  unfold integerDigits? at h
  split at h
  · simp_all
  · simp only at h
    split at h
    · simp at h
    · rename_i hne
      simp only [Option.some.injEq, Prod.mk.injEq] at h
      obtain ⟨_, rfl⟩ := h
      have hsplit : (cs.takeWhile isDigit ++ cs.dropWhile isDigit).length = cs.length := by
        rw [List.takeWhile_append_dropWhile]
      rw [List.length_append] at hsplit
      have := List.length_pos_iff.mpr hne
      omega

theorem readNumber?_length {cs rest : List Char} {n : Number}
    (h : readNumber? cs = some (n, rest)) : rest.length < cs.length := by
  unfold readNumber? at h
  simp only [Option.bind_eq_bind, Option.bind_eq_some_iff, Prod.exists, Option.pure_def,
    Option.some.injEq, Prod.mk.injEq] at h
  obtain ⟨_, r₁, h₁, _, r₂, h₂, _, r₃, h₃, _, rfl⟩ := h
  have l₁ := integerDigits?_length h₁
  have l₂ := dropFraction?_length h₂
  have l₃ := dropExponent?_length h₃
  have l₀ : (match cs with
    | '-' :: rest => (true, rest)
    | _ => (false, cs)).2.length ≤ cs.length := by
    split <;> simp
  omega

def symbol? : Char → Option Token
  | '\x7b' => some .openObject
  | '\x7d' => some .closeObject
  | '[' => some .openArray
  | ']' => some .closeArray
  | ':' => some .colon
  | ',' => some .comma
  | _ => none

def tokens (cs : List Char) : Option (List Token) :=
  match cs with
  | [] => some []
  | 't' :: 'r' :: 'u' :: 'e' :: rest => (tokens rest).map (.bool true :: ·)
  | 'f' :: 'a' :: 'l' :: 's' :: 'e' :: rest => (tokens rest).map (.bool false :: ·)
  | 'n' :: 'u' :: 'l' :: 'l' :: rest => (tokens rest).map (.null :: ·)
  | c :: rest =>
    if isSpace c then tokens rest
    else match symbol? c with
      | some t => (tokens rest).map (t :: ·)
      | none =>
        if c = '"' then
          match h : stringBody rest with
          | some (pieces, rest') =>
            have := stringBody_length h
            (tokens rest').map (.text (content pieces) :: ·)
          | none => none
        else
          match h : readNumber? (c :: rest) with
          | some (n, rest') =>
            have := readNumber?_length h
            (tokens rest').map (.number n :: ·)
          | none => none
termination_by cs.length
decreasing_by all_goals (simp only [List.length_cons] at *; omega)

end HealthSignal.Json
