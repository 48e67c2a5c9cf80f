import HealthSignal.Text.Quoted
import HealthSignal.Toml.Value

/-!
Reading of configuration values out of TOML values. Records may stand as tables, whose unknown keys are
passed over, or as arrays of their fields in order; what is left out keeps its default.
-/
namespace HealthSignal.Config
open Toml (Value)

inductive Shape
  | text
  | path
  | bool
  | port
  | record (name : String)
  /-- A record with a tag that tells its kind. -/
  | tagged (name : String)
  | tag
  deriving DecidableEq, Repr

def Shape.message : Shape → String
  | .text => "a string"
  | .path => "path string"
  | .bool => "a boolean"
  | .port => "u16"
  | .record name => "struct " ++ name
  | .tagged name => "internally tagged enum " ++ name
  | .tag => "variant identifier"

inductive Found
  | text (s : String)
  | integer (n : Int)
  | real (digits : String)
  | bool (b : Bool)
  | sequence
  | map
  deriving DecidableEq, Repr

def Found.message : Found → String
  | .text s => "string " ++ Text.quoted s
  | .integer n => "integer `" ++ toString n ++ "`"
  | .real digits => "floating point `" ++ digits ++ "`"
  | .bool b => "boolean `" ++ (if b then "true" else "false") ++ "`"
  | .sequence => "sequence"
  | .map => "map"

/-- A date counts as a map. -/
def Found.ofValue : Value → Found
  | .text s => .text s
  | .integer n => .integer n
  | .real r => .real r.text
  | .bool b => .bool b
  | .date => .map
  | .array _ => .sequence
  | .table _ => .map

inductive SchemaError
  | wrongType (found : Found) (expected : Shape)
  | wrongValue (found : Found) (expected : Shape)
  | missing (field : String)
  | unknownTag (tag : String) (known : List String)
  /-- A tagged record of one field is an array without that field. -/
  | tooShort (variant : String)
  /-- Such an array has further elements. -/
  | tooLong (length : Nat)
  deriving DecidableEq, Repr

def SchemaError.message : SchemaError → String
  | .wrongType found expected => "invalid type: " ++ found.message ++ ", expected " ++ expected.message
  | .wrongValue found expected =>
    "invalid value: " ++ found.message ++ ", expected " ++ expected.message
  | .missing field => "missing field `" ++ field ++ "`"
  | .unknownTag tag known =>
    "unknown variant `" ++ tag ++ "`, expected " ++
      String.intercalate " or " (known.map fun name => "`" ++ name ++ "`")
  | .tooShort variant =>
    "invalid length 0, expected struct variant " ++ variant ++ " with 1 element"
  | .tooLong length =>
    "invalid length " ++ toString length ++ ", expected 1 element in sequence"

abbrev Decoder (α : Type) := Value → Except SchemaError α

def wrong {α : Type} (v : Value) (expected : Shape) : Except SchemaError α :=
  .error (.wrongType (.ofValue v) expected)

namespace Decoder

def text (shape : Shape) : Decoder String
  | .text s => .ok s
  | v => wrong v shape

def bool : Decoder Bool
  | .bool b => .ok b
  | v => wrong v .bool

def port : Decoder UInt16
  | .integer n =>
    if 0 ≤ n ∧ n < UInt16.size then .ok (UInt16.ofNat n.toNat)
    else .error (.wrongValue (.integer n) .port)
  | v => wrong v .port

/-- Sets the fields of a record one after the other. `set` changes one field, or nothing if there is no
such field. -/
def fill {α : Type} (set : α → String → Value → Except SchemaError α) (r : α)
    (fields : List (String × Value)) : Except SchemaError α :=
  fields.foldlM (fun r (key, v) => set r key v) r

def record {α : Type} (name : String) (names : List String) (default : α)
    (set : α → String → Value → Except SchemaError α) : Decoder α
  | .table members => fill set default members
  | .array elements => fill set default (names.zip elements)
  | .date => .ok default
  | v => wrong v (.record name)

end Decoder
end HealthSignal.Config
