import HealthSignal.Journal.Basic
import HealthSignal.Transport.FileTree

/-!
Journals in files. Whether a file is a database, what it holds, and what becomes of the file, is up to a
database engine. A tree keeps no more of a database than that there is a file that is no text.
-/
namespace HealthSignal.Journal

/-- What opening a journal needs of a database engine, which tells its failures as texts. -/
structure Engine where
  /-- Opens the database in a file, or makes one there. -/
  create : FileTree → Path → FileTree × Except String Journal
  beginWrite : Journal → Except String Unit
  /-- Opens a table to write to it; one that is missing is made. -/
  openTable : Journal → String → Except String Unit
  commit : Journal → Except String Unit

def step {α : Type} (kind : JournalError.Kind) (r : Except String α) : Except JournalError α :=
  r.mapError (⟨kind, ·⟩)

def ensureTables (g : Engine) (j : Journal) : Except JournalError Unit := do
  step .transaction (g.beginWrite j)
  step .table (g.openTable j "journal")
  step .table (g.openTable j "snapshots")
  step .transaction (g.commit j)

def openAt (g : Engine) (t : FileTree) (p : Path) : FileTree × Except JournalError Journal :=
  let (t, created) := g.create t p
  (t, do
    let j ← step .opening created
    ensureTables g j
    return j)

def openFile (g : Engine) (t : FileTree) (p : Path) : FileTree × Except JournalError Journal :=
  match t.makeParents p with
  | (t, .error e) => (t, .error ⟨.opening, e.message⟩)
  | (t, .ok ()) => openAt g t p

/-- An engine whose databases are in memory, and gone with the process. A file that is no text is one that
it has open. -/
def Engine.volatile : Engine where
  create t p :=
    let content := t.read p
    if content.any (· ≠ "") then (t, .error "I/O error: invalid data")
    else if content.isNone && t.exists p && !t.isDirectory p then
      (t, .error "Database already open. Cannot acquire lock.")
    else
      match t.store p none with
      | .ok t => (t, .ok .empty)
      | .error e => (t, .error ("I/O error: " ++ e.message))
  beginWrite _ := .ok ()
  openTable _ _ := .ok ()
  commit _ := .ok ()

end HealthSignal.Journal
