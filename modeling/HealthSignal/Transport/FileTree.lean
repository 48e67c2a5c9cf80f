import HealthSignal.Transport.Path

/-!
A tree of directories and regular files, and the file calls on it. Paths are resolved name by name; there
are no links, and every directory may be written to.
-/
namespace HealthSignal

inductive Node
  /-- A file with its content, if that is text. -/
  | file (content : Option String)
  | directory (entries : List (String × Node))

abbrev Entries := List (String × Node)

abbrev Place := List String

structure FileTree where
  entries : Entries

namespace FileTree

def empty : FileTree := ⟨[]⟩

def find? : Node → Place → Option Node
  | n, [] => some n
  | .directory entries, name :: rest => (entries.lookup name).bind (find? · rest)
  | .file _, _ :: _ => none

def node? (t : FileTree) (p : Place) : Option Node := find? (.directory t.entries) p

def modifyAt (f : Entries → Entries) : Place → Entries → Entries
  | [], entries => f entries
  | name :: rest, entries => entries.map fun (k, n) =>
    match n with
    | .directory inner => if k = name then (k, .directory (modifyAt f rest inner)) else (k, n)
    | .file _ => (k, n)

def modify (t : FileTree) (dir : Place) (f : Entries → Entries) : FileTree :=
  ⟨modifyAt f dir t.entries⟩

def put (t : FileTree) (dir : Place) (name : String) (n : Node) : FileTree :=
  t.modify dir fun entries => (name, n) :: entries.filter (·.1 ≠ name)

def delete (t : FileTree) (dir : Place) (name : String) : FileTree :=
  t.modify dir fun entries => entries.filter (·.1 ≠ name)

/-! ### Looking up paths -/

/-- The directories from a place up to the root, which is left out, each with its name. -/
abbrev Trail := List (String × Entries)

def Trail.place (w : Trail) : Place := (w.map (·.1)).reverse

def holds (t : FileTree) : Trail → Entries
  | [] => t.entries
  | (_, entries) :: _ => entries

/-- A name that the operating system takes: at most 255 bytes. -/
def checkName (name : String) : Except IoError Unit :=
  if 255 < name.utf8ByteSize then .error .nameTooLong else .ok ()

def walk (t : FileTree) : Trail → List String → Except IoError Trail
  | w, [] => .ok w
  | w, name :: rest =>
    if name = ".." then walk t w.tail rest
    else do
      checkName name
      match (t.holds w).lookup name with
      | none => .error .notFound
      | some (.file _) => .error .notADirectory
      | some (.directory entries) => walk t ((name, entries) :: w) rest

inductive Target
  /-- An entry of a directory that is there; the entry itself need not be. -/
  | entry (dir : Place) (name : String) (found : Option Node)
  /-- A directory that the path reaches by dots at its end. -/
  | directory (place : Place)

def locate (t : FileTree) (p : Path) : Except IoError Target := do
  p.check
  let whole : Except IoError Target := return .directory (← t.walk [] p.names).place
  match p.names.getLast? with
  | none => whole
  | some name =>
    if p.ending = .dot ∨ name = ".." then whole
    else
      let w ← t.walk [] p.names.dropLast
      checkName name
      return .entry w.place name ((t.holds w).lookup name)

def isDirectory (t : FileTree) (p : Path) : Bool :=
  match t.locate p with
  | .ok (.directory _) | .ok (.entry _ _ (some (.directory _))) => true
  | _ => false

def «exists» (t : FileTree) (p : Path) : Bool :=
  match t.locate p with
  | .ok (.directory _) | .ok (.entry _ _ (some (.directory _))) => true
  | .ok (.entry _ _ (some (.file _))) => p.ending ≠ .slash
  | _ => false

def read (t : FileTree) (p : Path) : Option String :=
  match t.locate p with
  | .ok (.entry _ _ (some (.file content))) => if p.ending = .slash then none else content
  | _ => none

/-! ### Changes -/

def makeDirectory (t : FileTree) (p : Path) : Except IoError FileTree := do
  match ← t.locate p with
  | .entry dir name none => return t.put dir name (.directory [])
  | _ => .error .alreadyExists

def settle (t : FileTree) (p : Path) : Except IoError FileTree → FileTree × Except IoError Unit
  | .ok t => (t, .ok ())
  | .error e => (t, if t.isDirectory p then .ok () else .error e)

/-- Makes the first of some directories, each below the next one, and those below which it is missing. -/
def makeAll (t : FileTree) : List Path → FileTree × Except IoError Unit
  | [] => (t, .ok ())
  | p :: above =>
    match t.makeDirectory p with
    | .error .notFound =>
      match makeAll t above with
      | (t, .ok ()) => t.settle p (t.makeDirectory p)
      | failed => failed
    | made => t.settle p made

/-- Makes a directory and all that is missing above it. The tree is given back in any case: a failure
keeps what was made before. -/
def makeDirectories (t : FileTree) (p : Path) : FileTree × Except IoError Unit :=
  if p.size = 0 then (t, .ok ()) else t.makeAll (p :: p.ancestors)

def makeParents (t : FileTree) (p : Path) : FileTree × Except IoError Unit := t.makeAll p.ancestors

def store (t : FileTree) (p : Path) (content : Option String) : Except IoError FileTree := do
  match ← t.locate p with
  | .directory _ | .entry _ _ (some (.directory _)) => .error .isADirectory
  | .entry dir name _ =>
    if p.ending = .slash then .error .isADirectory else return t.put dir name (.file content)

def write (t : FileTree) (p : Path) (text : String) : Except IoError FileTree :=
  t.store p (some text)

def remove (t : FileTree) (p : Path) : Except IoError FileTree := do
  match ← t.locate p with
  | .directory _ | .entry _ _ (some (.directory _)) => .error .isADirectory
  | .entry _ _ none => .error .notFound
  | .entry dir name (some (.file _)) =>
    if p.ending = .slash then .error .notADirectory else return t.delete dir name

/-- Removes an empty directory. Dots at the end of a path name no entry that could be removed. -/
def removeEmpty (t : FileTree) (p : Path) : Except IoError FileTree := do
  match ← t.locate p with
  | .directory _ => .error (if p.ending = .dot then .invalidArgument else .directoryNotEmpty)
  | .entry _ _ none => .error .notFound
  | .entry _ _ (some (.file _)) => .error .notADirectory
  | .entry dir name (some (.directory [])) => return t.delete dir name
  | .entry _ _ (some (.directory _)) => .error .directoryNotEmpty

def Target.directory? : Target → Except IoError Place
  | .directory place => .ok place
  | .entry _ _ none => .error .notFound
  | .entry _ _ (some (.file _)) => .error .notADirectory
  | .entry dir name (some (.directory _)) => .ok (dir ++ [name])

/-- Removes a directory with everything in it. What it holds goes first, whatever comes of the directory
itself; if the path leads nowhere without that, nothing is left to do. -/
def removeTree (t : FileTree) (p : Path) : FileTree × Except IoError Unit :=
  match (t.locate p).bind Target.directory? with
  | .error e => (t, .error e)
  | .ok place =>
    let t := t.modify place fun _ => []
    match t.removeEmpty p with
    | .ok t => (t, .ok ())
    | .error .notFound => (t, .ok ())
    | .error e => (t, .error e)

end FileTree
end HealthSignal
