import HealthSignal.Text.Decimal

/-!
Compact JSON texts: strings with the shortest escapes, unsigned numbers, booleans and objects.
-/
namespace HealthSignal.Json

def hexDigit (n : Nat) : Char :=
  if n < 10 then Char.ofNat (48 + n) else Char.ofNat (87 + n)

def escape (c : Char) : List Char :=
  match c with
  | '"' => ['\\', '"']
  | '\\' => ['\\', '\\']
  | '\x08' => ['\\', 'b']
  | '\x0c' => ['\\', 'f']
  | '\n' => ['\\', 'n']
  | '\r' => ['\\', 'r']
  | '\t' => ['\\', 't']
  | c =>
    if c.toNat < 0x20 then
      ['\\', 'u', '0', '0', hexDigit (c.toNat / 16), hexDigit (c.toNat % 16)]
    else [c]

def quote (s : String) : List Char := '"' :: s.toList.flatMap escape ++ ['"']

inductive Scalar
  | bool (value : Bool)
  | word (value : Nat)
  | text (value : String)
  deriving DecidableEq, Repr

def Scalar.write : Scalar → List Char
  | .bool true => ['t', 'r', 'u', 'e']
  | .bool false => ['f', 'a', 'l', 's', 'e']
  | .word n => Text.digits n
  | .text s => quote s

def writeMember (m : String × Scalar) : List Char := quote m.1 ++ ':' :: m.2.write

def writeObject (members : List (String × Scalar)) : String :=
  String.ofList ('\x7b' :: (List.intercalate [','] (members.map writeMember)) ++ ['\x7d'])

end HealthSignal.Json
