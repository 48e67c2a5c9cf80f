import HealthSignal.Toml.Item
import HealthSignal.Toml.Scalar

/-!
Reading of TOML documents.
-/
namespace HealthSignal.Toml

def maxDepth : Nat := 79

def maxParts : Nat := 79

/-- Skips blanks, line breaks and comments. In a comment, the line break is still to come. -/
def trivia : (comment : Bool) → List Char → Option (List Char)
  | _, [] => some []
  | _, '\n' :: rest => trivia false rest
  | _, '\r' :: '\n' :: rest => trivia false rest
  | true, c :: rest => if isPlain c then trivia true rest else none
  | false, '#' :: rest => trivia true rest
  | false, c :: rest => if isBlank c then trivia false rest else some (c :: rest)

def commentEnd : List Char → Option (List Char)
  | [] => some []
  | '\n' :: rest => some rest
  | '\r' :: '\n' :: rest => some rest
  | c :: rest => if isPlain c then commentEnd rest else none

def lineEnd (cs : List Char) : Option (List Char) :=
  match skipBlanks cs with
  | [] => some []
  | '#' :: rest => commentEnd rest
  | rest => newline? rest

def isBare (c : Char) : Bool :=
  Text.isDigit c || (65 ≤ c.toNat && c.toNat ≤ 90) || (97 ≤ c.toNat && c.toNat ≤ 122) ||
    c == '_' || c == '-'

def readPart : Reader String
  | '"' :: rest => (basicBody rest).map fun (s, rest) => (String.ofList s, rest)
  | '\'' :: rest => (literalBody rest).map fun (s, rest) => (String.ofList s, rest)
  | cs =>
    let run := cs.takeWhile isBare
    if run = [] then none else some (String.ofList run, cs.dropWhile isBare)

def readParts (cs : List Char) : Option (List String × List Char) := do
  let (part, rest) ← readPart (skipBlanks cs)
  match skipBlanks rest with
  | '.' :: rest =>
    if rest.length < cs.length then
      let (parts, rest) ← readParts rest
      return (part :: parts, rest)
    else none
  | rest => return ([part], rest)
termination_by cs.length

def readKey (cs : List Char) : Option ((List String × String) × List Char) := do
  let (parts, rest) ← readParts cs
  if parts.length > maxParts then none
  else return ((parts.dropLast, ← parts.getLast?), rest)

def readPair (value : Reader Value) (cs : List Char) :
    Except SyntaxError ((List String × String × Value) × List Char) :=
  match readKey cs with
  | none => .error .key
  | some ((path, key), '=' :: rest) =>
    match value (skipBlanks rest) with
    | some (v, rest) => .ok ((path, key, v), rest)
    | none => .error .value
  | some _ => .error .separator

def readElements (value : Reader Value) (cs : List Char) : Option (List Value × List Char) := do
  match ← trivia false cs with
  | ']' :: rest => return ([], rest)
  | start =>
    let (v, rest) ← value start
    match ← trivia false rest with
    | ']' :: rest => return ([v], rest)
    | ',' :: rest =>
      if rest.length < cs.length then
        let (vs, rest) ← readElements value rest
        return (v :: vs, rest)
      else none
    | _ => none
termination_by cs.length

def readMembers (value : Reader Value) (items : Items) (cs : List Char) :
    Option (Items × List Char) := do
  let ((path, key, v), rest) ← (readPair value cs).toOption
  let items ← (items.define v path key).toOption
  match skipBlanks rest with
  | '\x7d' :: rest => return (items, rest)
  | ',' :: rest => if rest.length < cs.length then readMembers value items rest else none
  | _ => none
termination_by cs.length

/-- A value with at most `depth` arrays and inline tables around one another. -/
def readValue : (depth : Nat) → Reader Value
  | 0 => fun cs =>
    match cs with
    | '[' :: _ => none
    | '\x7b' :: _ => none
    | _ => readScalar cs
  | depth + 1 => fun cs =>
    match cs with
    | '[' :: rest =>
      (readElements (readValue depth) rest).map fun (vs, rest) => (.array vs, rest)
    | '\x7b' :: rest =>
      match skipBlanks rest with
      | '\x7d' :: rest => some (.table [], rest)
      | _ =>
        (readMembers (readValue depth) [] rest).map fun (items, rest) =>
          (.table (Items.toTable items), rest)
    | _ => readScalar cs

structure Draft where
  items : Items
  path : List String

def headerEnd : (double : Bool) → List Char → Option (List Char)
  | true, ']' :: ']' :: rest => some rest
  | false, ']' :: rest => some rest
  | _, _ => none

def Draft.header (d : Draft) (cs : List Char) : Except SyntaxError (Draft × List Char) :=
  let (double, body) := match cs with
    | '[' :: '[' :: rest => (true, rest)
    | cs => (false, cs.drop 1)
  match readKey body with
  | none => .error .key
  | some ((path, key), rest) =>
    match headerEnd double rest with
    | none => .error (.unclosedHeader double)
    | some rest =>
      match lineEnd rest with
      | none => .error .headerLineEnd
      | some rest => do
        let begin := if double then Items.openElement key else Items.openTable key
        return (⟨← d.items.update begin path, path ++ [key]⟩, rest)

def Draft.pair (d : Draft) (cs : List Char) : Except SyntaxError (Draft × List Char) := do
  let ((path, key, v), rest) ← readPair (readValue maxDepth) cs
  match lineEnd rest with
  | none => .error .lineEnd
  | some rest => return (⟨← d.items.update (Items.define v path key) d.path, d.path⟩, rest)

def Draft.lines (d : Draft) (cs : List Char) : Except SyntaxError Draft :=
  match skipBlanks cs with
  | [] => .ok d
  | c :: rest =>
    let step : Except SyntaxError (Draft × List Char) :=
      if c = '#' then
        match commentEnd rest with
        | some rest => .ok (d, rest)
        | none => .error .lineEnd
      else if c = '[' then d.header (c :: rest)
      else match newline? (c :: rest) with
        | some rest => .ok (d, rest)
        | none => d.pair (c :: rest)
    match step with
    | .error e => .error e
    | .ok (d, rest) => if rest.length < cs.length then lines d rest else .error .value
termination_by cs.length

def dropMark : List Char → List Char
  | '\ufeff' :: rest => rest
  | cs => cs

def parse (s : String) : Except SyntaxError Table :=
  (Draft.lines ⟨[], []⟩ (dropMark s.toList)).map fun d => Items.toTable d.items

end HealthSignal.Toml
