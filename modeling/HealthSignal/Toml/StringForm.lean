import HealthSignal.Text.Decimal

/-!
The written forms of a TOML string. The plainest form that can hold the text is taken: between double
quotes, between single quotes, then the same on several lines; if none can hold it, escapes are used.
-/
namespace HealthSignal.Toml

/-- A character that only an escape can stand for. The tab is not counted among them. -/
def isControl (c : Char) : Bool :=
  c ≠ '\t' && c ≠ '\n' && (c.toNat < 0x20 || c.toNat == 0x7F)

def longestRun (q : Char) : (run : Nat) → List Char → Nat
  | run, [] => run
  | run, c :: rest => if c = q then longestRun q (run + 1) rest else max run (longestRun q 0 rest)

inductive StringForm
  /-- Between quotes as it is. -/
  | raw (quotes : List Char)
  | escaped (quotes : List Char)
  deriving DecidableEq, Repr

namespace StringForm

def basicQuotes : List Char := ['"']
def literalQuotes : List Char := ['\'']
def multiBasicQuotes : List Char := ['"', '"', '"']
def multiLiteralQuotes : List Char := ['\'', '\'', '\'']

def ofText (cs : List Char) : StringForm :=
  let control := cs.any isControl
  let newline := cs.contains '\n'
  let backslash := cs.contains '\\'
  let double := longestRun '"' 0 cs
  let single := longestRun '\'' 0 cs
  if !control && !backslash && double == 0 && !newline then .escaped basicQuotes
  else if !control && single == 0 && !newline then .raw literalQuotes
  else if !control && !backslash && double < 3 then .escaped multiBasicQuotes
  else if !control && single < 3 then .raw multiLiteralQuotes
  else if newline then .escaped multiBasicQuotes
  else .escaped basicQuotes

def hexDigit (n : Nat) : Char := if n < 10 then Char.ofNat (48 + n) else Char.ofNat (55 + n)

def escape (c : Char) : List Char :=
  match c with
  | '\x08' => ['\\', 'b']
  | '\t' => ['\\', 't']
  | '\x0c' => ['\\', 'f']
  | '\r' => ['\\', 'r']
  | '\\' => ['\\', '\\']
  | c =>
    if isControl c then
      ['\\', 'u', '0', '0', hexDigit (c.toNat / 16), hexDigit (c.toNat % 16)]
    else [c]

/-- A text between double quotes, with escapes. On several lines, line breaks stand as they are, and
so do up to two double quotes in a row; `run` counts them. -/
def escapeBody (multi : Bool) : (run : Nat) → List Char → List Char
  | _, [] => []
  | run, '"' :: rest =>
    if multi && run < 2 then '"' :: escapeBody multi (run + 1) rest
    else '\\' :: '"' :: escapeBody multi 0 rest
  | _, '\n' :: rest =>
    if multi then '\n' :: escapeBody multi 0 rest else '\\' :: 'n' :: escapeBody multi 0 rest
  | _, c :: rest => escape c ++ escapeBody multi 0 rest

/-- Opening quotes. A line break after those of several lines is not part of the text. -/
def opening (quotes cs : List Char) : List Char :=
  if quotes.length == 3 && cs.contains '\n' then quotes ++ ['\n'] else quotes

def write (form : StringForm) (cs : List Char) : List Char :=
  match form with
  | .raw quotes => opening quotes cs ++ cs ++ quotes
  | .escaped quotes => opening quotes cs ++ escapeBody (quotes.length == 3) 0 cs ++ quotes

end StringForm

def writeString (cs : List Char) : List Char := (StringForm.ofText cs).write cs

end HealthSignal.Toml
