import HealthSignal.Text.Parts
import HealthSignal.Text.Utf8
import HealthSignal.Transport.Error

/-!
Paths as the operating system takes them: names between slashes. An empty segment and a single dot stand
for no step, but count towards the length of the path, and one at the end asks for a directory.
-/
namespace HealthSignal

/-- A path as its segments between slashes, from the last one to the first. -/
structure Path where
  segments : List String
  deriving DecidableEq, Repr

inductive PathEnd
  | name
  | slash
  | dot
  deriving DecidableEq, Repr

namespace Path

def ofString (s : String) : Path := ⟨((Text.parts '/' s.toList).map String.ofList).reverse⟩

def blank (segment : String) : Bool := segment == "" || segment == "."

def names (p : Path) : List String := (p.segments.filter (!blank ·)).reverse

def ending (p : Path) : PathEnd :=
  if p.segments.find? (· ≠ "") = some "." then .dot
  else if p.segments.head? = some "" then .slash
  else .name

def text (p : Path) : String := "/".intercalate p.segments.reverse

def size (p : Path) : Nat := p.text.utf8ByteSize

def leading : (segments : List String) → List Path
  | [] => []
  | s :: rest => if blank s then leading rest else ⟨s :: rest⟩ :: leading rest

def ancestors (p : Path) : List Path := (leading p.segments).tail

/-- The operating system takes paths of less than 4096 bytes, none of them zero. -/
def check (p : Path) : Except IoError Unit :=
  if p.segments.any (·.toList.contains '\x00') then .error .nulByte
  else if p.size = 0 then .error .notFound
  else if 4096 ≤ p.size then .error .nameTooLong
  else .ok ()

end Path
end HealthSignal
