import HealthSignal.Decimal.Binary64

/-!
TOML values. Tables keep their keys in order of definition. Of dates and times nothing but their being
there is kept.
-/
namespace HealthSignal.Toml

inductive Real
  /-- `mantissa · 10 ^ exponent` -/
  | finite (negative : Bool) (mantissa : Nat) (exponent : Int)
  | infinity (negative : Bool)
  | nan
  deriving DecidableEq, Repr

namespace Real

def overflows : Real → Bool
  | .finite false mantissa exponent => (Decimal.nearest? mantissa exponent).isNone
  | _ => false

def withSign (negative : Bool) (s : String) : String := if negative then "-" ++ s else s

def text : Real → String
  | .finite negative mantissa exponent =>
    withSign negative (((Decimal.nearest? mantissa exponent).map (·.text)).getD "inf")
  | .infinity negative => withSign negative "inf"
  | .nan => "NaN"

end Real

inductive Value
  | text (s : String)
  | integer (n : Int)
  | real (r : Real)
  | bool (b : Bool)
  | date
  | array (elements : List Value)
  | table (members : List (String × Value))
  deriving Repr

abbrev Table := List (String × Value)

inductive SyntaxError
  | key
  | separator
  | value
  | lineEnd
  /-- A header does not end with its bracket, or with its two brackets. -/
  | unclosedHeader (double : Bool)
  | headerLineEnd
  | duplicate
  deriving DecidableEq, Repr

def SyntaxError.message : SyntaxError → String
  | .key => "invalid key"
  | .separator => "expected `.`, `=`"
  | .value => "invalid value"
  | .lineEnd => "expected newline, `#`"
  | .unclosedHeader false => "invalid table header\nexpected `.`, `]`"
  | .unclosedHeader true => "invalid table header\nexpected `.`, `]]`"
  | .headerLineEnd => "invalid table header\nexpected newline, `#`"
  | .duplicate => "duplicate key"

end HealthSignal.Toml
