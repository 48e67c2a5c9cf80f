/-!
Decimal digits: writing natural numbers, plain or zero-padded, and reading digit strings back.
-/
namespace HealthSignal.Text

def digitChar (d : Nat) : Char := Char.ofNat (48 + d % 10)

def isDigit (c : Char) : Bool := 48 ≤ c.toNat && c.toNat ≤ 57

def digits (n : Nat) : List Char :=
  if n < 10 then [digitChar n] else digits (n / 10) ++ [digitChar (n % 10)]
termination_by n

def decimal (n : Nat) : String := String.ofList (digits n)

def fixedDigits : (width : Nat) → Nat → List Char
  | 0, _ => []
  | width + 1, n => fixedDigits width (n / 10) ++ [digitChar (n % 10)]

def padded (width n : Nat) : List Char :=
  if n < Nat.pow 10 width then fixedDigits width n else digits n

def digitsValue (cs : List Char) : Nat :=
  cs.foldl (fun n c => 10 * n + (c.toNat - 48)) 0

def readDigits? (cs : List Char) : Option Nat :=
  if cs ≠ [] ∧ cs.all isDigit then some (digitsValue cs) else none

/-- An unsigned number below `2 ^ 64`, with an optional plus sign. -/
def readWord? (cs : List Char) : Option Nat :=
  let body := match cs with
    | '+' :: rest => rest
    | _ => cs
  (readDigits? body).filter (· < UInt64.size)

end HealthSignal.Text
