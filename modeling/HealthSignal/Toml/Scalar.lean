import HealthSignal.Text.Decimal
import HealthSignal.Text.Radix
import HealthSignal.Toml.Value

/-!
Readers of TOML scalars. Each takes the characters from the scalar on and gives its value with what
follows it.
-/
namespace HealthSignal.Toml
open Text (digitsValue hexWord? isDigit isDigitIn valueIn)

abbrev Reader (α : Type) := List Char → Option (α × List Char)

def isBlank (c : Char) : Bool := c == ' ' || c == '\t'

def isPlain (c : Char) : Bool := c == '\t' || (0x20 ≤ c.toNat && c.toNat != 0x7F)

def skipBlanks (cs : List Char) : List Char := cs.dropWhile isBlank

def newline? : List Char → Option (List Char)
  | '\n' :: rest => some rest
  | '\r' :: '\n' :: rest => some rest
  | _ => none

def scalar? (n : Nat) : Option Char :=
  if n < 0xD800 ∨ (0xDFFF < n ∧ n < 0x110000) then some (Char.ofNat n) else none

def shortEscape? : Char → Option Char
  | 'b' => some '\x08'
  | 't' => some '\t'
  | 'n' => some '\n'
  | 'f' => some '\x0c'
  | 'r' => some '\r'
  | '"' => some '"'
  | '\\' => some '\\'
  | _ => none

def hexLong? (a b c d e f g h : Char) : Option Nat := do
  return (← hexWord? a b c d) * 0x10000 + (← hexWord? e f g h)

def consTo (c : Char) (r : Option (List Char × List Char)) : Option (List Char × List Char) :=
  r.map fun (s, rest) => (c :: s, rest)

def basicBody : Reader (List Char)
  | [] => none
  | '"' :: rest => some ([], rest)
  | '\\' :: 'u' :: a :: b :: c :: d :: rest => do
    consTo (← scalar? (← hexWord? a b c d)) (basicBody rest)
  | '\\' :: 'U' :: a :: b :: c :: d :: e :: f :: g :: h :: rest => do
    consTo (← scalar? (← hexLong? a b c d e f g h)) (basicBody rest)
  | '\\' :: e :: rest => do consTo (← shortEscape? e) (basicBody rest)
  | c :: rest => if isPlain c ∧ c ≠ '\\' then consTo c (basicBody rest) else none

def literalBody : Reader (List Char)
  | [] => none
  | '\'' :: rest => some ([], rest)
  | c :: rest => if isPlain c then consTo c (literalBody rest) else none

inductive Joining
  | none
  /-- The line break is still to come. -/
  | before
  /-- Blanks and line breaks are skipped. -/
  | after
  deriving DecidableEq, Repr

/-- The rest of a multi-line basic string. One or two quotes may stand before the closing ones. -/
def multiBasicBody : Joining → Reader (List Char)
  | _, [] => none
  | .before, '\n' :: rest => multiBasicBody .after rest
  | .before, '\r' :: '\n' :: rest => multiBasicBody .after rest
  | .before, c :: rest => if isBlank c then multiBasicBody .before rest else none
  | .after, '\n' :: rest => multiBasicBody .after rest
  | .after, '\r' :: '\n' :: rest => multiBasicBody .after rest
  | .after, ' ' :: rest => multiBasicBody .after rest
  | .after, '\t' :: rest => multiBasicBody .after rest
  | _, '"' :: '"' :: '"' :: '"' :: '"' :: rest => some (['"', '"'], rest)
  | _, '"' :: '"' :: '"' :: '"' :: rest => some (['"'], rest)
  | _, '"' :: '"' :: '"' :: rest => some ([], rest)
  | _, '\\' :: 'u' :: a :: b :: c :: d :: rest => do
    consTo (← scalar? (← hexWord? a b c d)) (multiBasicBody .none rest)
  | _, '\\' :: 'U' :: a :: b :: c :: d :: e :: f :: g :: h :: rest => do
    consTo (← scalar? (← hexLong? a b c d e f g h)) (multiBasicBody .none rest)
  | _, '\\' :: '\n' :: rest => multiBasicBody .after rest
  | _, '\\' :: '\r' :: '\n' :: rest => multiBasicBody .after rest
  | _, '\\' :: e :: rest =>
    if isBlank e then multiBasicBody .before rest
    else do consTo (← shortEscape? e) (multiBasicBody .none rest)
  | _, '\n' :: rest => consTo '\n' (multiBasicBody .none rest)
  | _, '\r' :: '\n' :: rest => consTo '\n' (multiBasicBody .none rest)
  | _, c :: rest => if isPlain c ∧ c ≠ '\\' then consTo c (multiBasicBody .none rest) else none

def multiLiteralBody : Reader (List Char)
  | [] => none
  | '\'' :: '\'' :: '\'' :: '\'' :: '\'' :: rest => some (['\'', '\''], rest)
  | '\'' :: '\'' :: '\'' :: '\'' :: rest => some (['\''], rest)
  | '\'' :: '\'' :: '\'' :: rest => some ([], rest)
  | '\n' :: rest => consTo '\n' (multiLiteralBody rest)
  | '\r' :: '\n' :: rest => consTo '\n' (multiLiteralBody rest)
  | c :: rest => if isPlain c then consTo c (multiLiteralBody rest) else none

/-- Drops the line break that may follow the opening of a multi-line string. -/
def dropNewline (cs : List Char) : List Char := (newline? cs).getD cs

def readString : Reader (List Char)
  | '"' :: '"' :: '"' :: rest => multiBasicBody .none (dropNewline rest)
  | '"' :: rest => basicBody rest
  | '\'' :: '\'' :: '\'' :: rest => multiLiteralBody (dropNewline rest)
  | '\'' :: rest => literalBody rest
  | _ => none

/-- Digits of a kind, with single underscores between them. -/
def digitRun (isDigit : Char → Bool) : Reader (List Char)
  | [] => none
  | c :: rest =>
    if !isDigit c then none
    else match rest with
      | '_' :: rest => consTo c (digitRun isDigit rest)
      | d :: rest' =>
        if isDigit d then consTo c (digitRun isDigit (d :: rest')) else some ([c], rest)
      | [] => some ([c], [])

/-- A run of digits that starts with a zero only if that is all of it. -/
def plainRun : Reader (List Char)
  | '0' :: rest => some (['0'], rest)
  | cs => digitRun isDigit cs

def sign : List Char → Bool × List Char
  | '-' :: rest => (true, rest)
  | '+' :: rest => (false, rest)
  | cs => (false, cs)

def signed (negative : Bool) (n : Nat) : Int := if negative then -(n : Int) else n

def fits (n : Int) : Bool := -9223372036854775808 ≤ n && n ≤ 9223372036854775807

def radixInteger (radix : Nat) : Reader Int := fun cs => do
  let (run, rest) ← digitRun (isDigitIn radix) cs
  let n : Int := valueIn radix run
  if fits n then some (n, rest) else none

def readInteger : Reader Int
  | '0' :: 'x' :: rest => radixInteger 16 rest
  | '0' :: 'o' :: rest => radixInteger 8 rest
  | '0' :: 'b' :: rest => radixInteger 2 rest
  | cs => do
    let (negative, body) := sign cs
    let (run, rest) ← plainRun body
    let n := signed negative (digitsValue run)
    if fits n then some (n, rest) else none

def fraction : Reader (List Char)
  | '.' :: rest => digitRun isDigit rest
  | _ => none

def exponent : Reader Int
  | c :: rest =>
    if c = 'e' ∨ c = 'E' then do
      let (negative, body) := sign rest
      let (run, rest) ← digitRun isDigit body
      return (signed negative (digitsValue run), rest)
    else none
  | [] => none

/-- A number with a fraction, an exponent, or both; one of the special names, with or without sign. -/
def readReal : Reader Real := fun cs => do
  let (negative, body) := sign cs
  match body with
  | 'i' :: 'n' :: 'f' :: rest => return (.infinity negative, rest)
  | 'n' :: 'a' :: 'n' :: rest => return (.nan, rest)
  | _ =>
    let (whole, rest) ← plainRun body
    match fraction rest with
    | some (part, rest) =>
      let (e, rest) := (exponent rest).getD (0, rest)
      return (.finite negative (digitsValue (whole ++ part)) (e - part.length), rest)
    | none =>
      let (e, rest) ← exponent rest
      return (.finite negative (digitsValue whole) e, rest)

def twoDigits (low high : Nat) : Reader Nat
  | a :: b :: rest =>
    let n := digitsValue [a, b]
    if isDigit a ∧ isDigit b ∧ low ≤ n ∧ n ≤ high then some (n, rest) else none
  | _ => none

def expect (c : Char) : List Char → Option (List Char)
  | d :: rest => if c = d then some rest else none
  | [] => none

def isLeapYear (y : Nat) : Bool := y % 4 == 0 && (y % 100 != 0 || y % 400 == 0)

def daysOfMonth (year month : Nat) : Nat :=
  if month = 2 then (if isLeapYear year then 29 else 28)
  else if month = 4 ∨ month = 6 ∨ month = 9 ∨ month = 11 then 30
  else 31

def dropDate (cs : List Char) : Option (List Char) := do
  let (century, rest) ← twoDigits 0 99 cs
  let (year, rest) ← twoDigits 0 99 rest
  let rest ← expect '-' rest
  let (month, rest) ← twoDigits 1 12 rest
  let rest ← expect '-' rest
  let (_, rest) ← twoDigits 1 (daysOfMonth (100 * century + year) month) rest
  return rest

def dropTime (cs : List Char) : Option (List Char) := do
  let (_, rest) ← twoDigits 0 23 cs
  let rest ← expect ':' rest
  let (_, rest) ← twoDigits 0 59 rest
  let rest ← expect ':' rest
  let (_, rest) ← twoDigits 0 60 rest
  match rest with
  | '.' :: c :: rest => if isDigit c then some (rest.dropWhile isDigit) else none
  | _ => some rest

def dropOffset (cs : List Char) : Option (List Char) :=
  match cs with
  | 'Z' :: rest => some rest
  | 'z' :: rest => some rest
  | c :: rest =>
    if c = '+' ∨ c = '-' then do
      let (_, rest) ← twoDigits 0 23 rest
      let rest ← expect ':' rest
      let (_, rest) ← twoDigits 0 59 rest
      return rest
    else none
  | [] => none

def dropDateTime (cs : List Char) : Option (List Char) :=
  match dropDate cs with
  | none => dropTime cs
  | some rest =>
    match rest with
    | c :: after =>
      if c = 'T' ∨ c = 't' ∨ c = ' ' then
        match dropTime after with
        | some after => some ((dropOffset after).getD after)
        | none => some rest
      else some rest
    | [] => some rest

/-- A scalar of any kind; a number that overflows is none. -/
def readScalar : Reader Value
  | 't' :: 'r' :: 'u' :: 'e' :: rest => some (.bool true, rest)
  | 'f' :: 'a' :: 'l' :: 's' :: 'e' :: rest => some (.bool false, rest)
  | cs =>
    match readString cs with
    | some (s, rest) => some (.text (String.ofList s), rest)
    | none =>
      match dropDateTime cs with
      | some rest => some (.date, rest)
      | none =>
        match readReal cs with
        | some (r, rest) => if r.overflows then none else some (.real r, rest)
        | none => (readInteger cs).map fun (n, rest) => (.integer n, rest)

end HealthSignal.Toml
