import HealthSignal.Text.Blank
import HealthSignal.Text.Decimal

/-!
Durations in whole milliseconds: the texts a configuration may hold and the text shown in messages.
-/
namespace HealthSignal

structure Duration where
  millis : Nat
  deriving DecidableEq, Repr

namespace Duration
open Text

def seconds (n : Nat) : Duration := ⟨1000 * n⟩

/-- The longest that a timer runs, in milliseconds: thirty years of 365 days. -/
def longestTimer : Nat := 946080000000

def timer (d : Duration) : Nat := min d.millis longestTimer

inductive Unit
  | none
  | millisecond
  | second
  | minute
  deriving DecidableEq, Repr

/-- Splits the unit off the end; `ms` is tried before the units it contains. -/
def splitUnit (cs : List Char) : List Char × Unit :=
  match cs.reverse with
  | 's' :: 'm' :: rest => (rest.reverse, .millisecond)
  | 's' :: rest => (rest.reverse, .second)
  | 'm' :: rest => (rest.reverse, .minute)
  | _ => (cs, .none)

/-- A number of units; minutes must not exceed `2 ^ 64` seconds. -/
def ofUnits? (n : Nat) : Unit → Option Duration
  | .millisecond => some ⟨n⟩
  | .none | .second => some (seconds n)
  | .minute => if 60 * n < UInt64.size then some (seconds (60 * n)) else Option.none

/-- Reads `250ms`, `5s`, `2m` or a bare number of seconds, with blanks around it ignored. -/
def parse? (s : String) : Option Duration :=
  let (number, unit) := splitUnit (trim s.toList)
  (readWord? number).bind (ofUnits? · unit)

def fraction (width n : Nat) : List Char :=
  dropRightWhile (· == '0') (fixedDigits width n)

/-- Whole seconds with a fraction from one second on, milliseconds below, `0ns` for zero. -/
def text (d : Duration) : String :=
  if d.millis = 0 then "0ns"
  else if d.millis < 1000 then decimal d.millis ++ "ms"
  else
    let rest := fraction 3 (d.millis % 1000)
    decimal (d.millis / 1000) ++
      String.ofList (if rest = [] then ['s'] else '.' :: rest ++ ['s'])

end Duration
end HealthSignal
