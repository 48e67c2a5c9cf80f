import HealthSignal.Status
import HealthSignal.Transport.FileTree

/-!
A file that is there while the signal is up and holds its message.
-/
namespace HealthSignal

structure SignalFile where
  path : Path
  deriving DecidableEq, Repr

namespace SignalFile

def go (f : SignalFile) (t : FileTree) (message : String) : FileTree × Except IoError Unit :=
  match t.makeParents f.path with
  | (t, .error e) => (t, .error e)
  | (t, .ok ()) =>
    match t.write f.path message with
    | .ok t => (t, .ok ())
    | .error e => (t, .error e)

/-- Removes the file; that it is not there is fine. -/
def stop (f : SignalFile) (t : FileTree) : FileTree × Except IoError Unit :=
  match t.remove f.path with
  | .ok t => (t, .ok ())
  | .error .notFound => (t, .ok ())
  | .error e => (t, .error e)

def call (f : SignalFile) (t : FileTree) : Decision → FileTree × Except IoError Unit
  | .go message => f.go t message
  | .stop _ => f.stop t

end SignalFile
end HealthSignal
