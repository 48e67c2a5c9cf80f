import HealthSignal.Toml.Reader
import HealthSignal.Toml.StringForm

/-!
Plain documents: tables of texts, natural numbers, booleans and further tables. They are written with
one header for each table, its scalars below it, and its tables after that.
-/
namespace HealthSignal.Toml

inductive Plain
  | text (s : String)
  | number (n : Nat)
  | bool (b : Bool)
  | table (members : List (String × Plain))
  deriving Repr

namespace Plain

abbrev Members := List (String × Plain)

mutual

def toValue : Plain → Value
  | .text s => .text s
  | .number n => .integer n
  | .bool b => .bool b
  | .table members => .table (toTable members)

def toTable : List (String × Plain) → Table
  | [] => []
  | (key, p) :: rest => (key, p.toValue) :: toTable rest

end

def scalar? : Plain → Option (List Char)
  | .text s => some (writeString s.toList)
  | .number n => some (Text.digits n)
  | .bool true => some ['t', 'r', 'u', 'e']
  | .bool false => some ['f', 'a', 'l', 's', 'e']
  | .table _ => none

def writeKey (key : String) : List Char :=
  let cs := key.toList
  if cs ≠ [] ∧ cs.all isBare then cs else '"' :: StringForm.escapeBody false 0 cs ++ ['"']

def scalarLines (members : Members) : List Char :=
  members.flatMap fun (key, p) =>
    match p.scalar? with
    | some cs => writeKey key ++ [' ', '=', ' '] ++ cs ++ ['\n']
    | none => []

def header (path : List String) : List Char :=
  '[' :: List.intercalate ['.'] (path.map writeKey) ++ [']', '\n']

mutual

def blocks (path : List String) : Plain → List (List Char)
  | .table members => (header path ++ scalarLines members) :: tableBlocks path members
  | _ => []

def tableBlocks (path : List String) : List (String × Plain) → List (List Char)
  | [] => []
  | (key, p) :: rest => blocks (path ++ [key]) p ++ tableBlocks path rest

end

def render (members : Members) : String :=
  let first := scalarLines members
  let rest := tableBlocks [] members
  String.ofList (List.intercalate ['\n'] (if first = [] then rest else first :: rest))

end Plain
end HealthSignal.Toml
