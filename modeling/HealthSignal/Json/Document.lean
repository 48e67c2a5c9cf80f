import HealthSignal.Json.Token

/-!
JSON documents one level deep. The records of this library are flat, so a nested value is only
checked for its form and kept as `Value.nested`.
-/
namespace HealthSignal.Json

inductive Value
  | null
  | bool (value : Bool)
  | number (value : Number)
  | text (content : Option (List Char))
  | nested
  deriving DecidableEq, Repr

inductive Document
  | value (v : Value)
  | object (members : List (Option (List Char) × Value))
  | array (elements : List Value)
  deriving DecidableEq, Repr

def Token.scalar? : Token → Option Value
  | .null => some .null
  | .bool b => some (.bool b)
  | .number n => some (.number n)
  | .text s => some (.text s)
  | _ => none

inductive Frame
  | object
  | array
  deriving DecidableEq, Repr

inductive Need
  | memberOrClose
  | member
  | colon
  | value
  | valueOrClose
  | commaOrClose
  deriving DecidableEq, Repr

/-- What follows the innermost of the unfinished values `top :: outer`, which must be well-formed. -/
def skip (top : Frame) (outer : List Frame) : Need → List Token → Option (List Token)
  | _, [] => none
  | .colon, .colon :: rest => skip top outer .value rest
  | .member, .text _ :: rest => skip top outer .colon rest
  | .memberOrClose, .text _ :: rest => skip top outer .colon rest
  | .commaOrClose, .comma :: rest =>
    skip top outer (match top with | .object => .member | .array => .value) rest
  | need, .closeObject :: rest =>
    if top = .object ∧ (need = .memberOrClose ∨ need = .commaOrClose) then
      match outer with
      | [] => some rest
      | next :: outer => skip next outer .commaOrClose rest
    else none
  | need, .closeArray :: rest =>
    if top = .array ∧ (need = .valueOrClose ∨ need = .commaOrClose) then
      match outer with
      | [] => some rest
      | next :: outer => skip next outer .commaOrClose rest
    else none
  | need, token :: rest =>
    if need = .value ∨ need = .valueOrClose then
      match token with
      | .openObject => skip .object (top :: outer) .memberOrClose rest
      | .openArray => skip .array (top :: outer) .valueOrClose rest
      | token => if token.scalar?.isSome then skip top outer .commaOrClose rest else none
    else none

theorem skip_length {top : Frame} {outer : List Frame} {need : Need} {ts rest : List Token}
    (h : skip top outer need ts = some rest) : rest.length < ts.length := by
  fun_induction skip top outer need ts <;> grind

def readValue : List Token → Option (Value × List Token)
  | [] => none
  | .openObject :: rest => (skip .object [] .memberOrClose rest).map (.nested, ·)
  | .openArray :: rest => (skip .array [] .valueOrClose rest).map (.nested, ·)
  | token :: rest => token.scalar?.map (·, rest)

theorem readValue_length {ts rest : List Token} {v : Value}
    (h : readValue ts = some (v, rest)) : rest.length < ts.length := by
  unfold readValue at h
  split at h
  · simp at h
  · simp only [Option.map_eq_some_iff, Prod.mk.injEq] at h
    obtain ⟨_, h, _, rfl⟩ := h
    have := skip_length h
    simp only [List.length_cons]; omega
  · simp only [Option.map_eq_some_iff, Prod.mk.injEq] at h
    obtain ⟨_, h, _, rfl⟩ := h
    have := skip_length h
    simp only [List.length_cons]; omega
  · simp only [Option.map_eq_some_iff, Prod.mk.injEq] at h
    obtain ⟨_, _, _, rfl⟩ := h
    simp

def readMembers (ts : List Token) :
    Option (List (Option (List Char) × Value) × List Token) :=
  match ts with
  | .text key :: .colon :: rest =>
    match h : readValue rest with
    | some (v, .comma :: rest') =>
      have := readValue_length h
      (readMembers rest').map fun (ms, rest) => ((key, v) :: ms, rest)
    | some (v, .closeObject :: rest') => some ([(key, v)], rest')
    | _ => none
  | _ => none
termination_by ts.length
decreasing_by simp only [List.length_cons] at *; omega

def readElements (ts : List Token) : Option (List Value × List Token) :=
  match h : readValue ts with
  | some (v, .comma :: rest) =>
    have := readValue_length h
    (readElements rest).map fun (vs, rest) => (v :: vs, rest)
  | some (v, .closeArray :: rest) => some ([v], rest)
  | _ => none
termination_by ts.length
decreasing_by simp only [List.length_cons] at *; omega

def complete {α : Type} : α × List Token → Option α
  | (a, []) => some a
  | _ => none

def Document.ofTokens? : List Token → Option Document
  | .openObject :: .closeObject :: rest => complete (.object [], rest)
  | .openObject :: rest => (readMembers rest).bind fun (ms, rest) => complete (.object ms, rest)
  | .openArray :: .closeArray :: rest => complete (.array [], rest)
  | .openArray :: rest => (readElements rest).bind fun (vs, rest) => complete (.array vs, rest)
  | ts => (readValue ts).bind fun (v, rest) => complete (.value v, rest)

def Document.parse? (s : String) : Option Document :=
  (tokens s.toList).bind Document.ofTokens?

namespace Value

def bool? : Value → Option Bool
  | .bool b => some b
  | _ => none

def text? : Value → Option String
  | .text (some s) => some (String.ofList s)
  | _ => none

/-- An unsigned integer below `2 ^ 64`, written without sign, fraction or exponent. -/
def word? : Value → Option Nat
  | .number n =>
    if n.negative || !n.whole then none
    else some (Text.digitsValue n.integer) |>.filter (· < UInt64.size)
  | _ => none

end Value

/-- The value of the field `name`, which must occur exactly once. -/
def field? (ms : List (Option (List Char) × Value)) (name : String) : Option Value :=
  match ms.filter (·.1 == some name.toList) with
  | [(_, v)] => some v
  | _ => none

/-- The values of the named fields. A record is an object that has each of them once, with other
fields ignored, or an array of exactly their values in order. -/
def Document.record? (names : List String) : Document → Option (List Value)
  | .object ms => if ms.all (·.1.isSome) then names.mapM (field? ms) else none
  | .array vs => if vs.length = names.length then some vs else none
  | .value _ => none

end HealthSignal.Json
