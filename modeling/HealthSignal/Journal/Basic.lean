import HealthSignal.Journal.Error
import HealthSignal.Journal.Record
import HealthSignal.Journal.Table

/-!
The journal: an append-only table of entries and a table of snapshots, shared by all ids. A write
is refused for the empty id, and an entry must be above the stored entries of its id.
-/
namespace HealthSignal

structure Journal where
  entries : Table
  snapshots : Table
  deriving DecidableEq, Repr

structure PruneCount where
  entries : UInt32
  snapshots : UInt32
  deriving DecidableEq, Repr

namespace Journal

def empty : Journal := ⟨[], []⟩

def refuse {α : Type} (reason : String) : Except JournalError α := .error ⟨.rejected, reason⟩

def decode (kind : RecordKind) (text : String) : Except JournalError Record :=
  match Record.ofJson? kind text with
  | some r => .ok r
  | none => .error ⟨.decoding, "malformed record"⟩

def decodeLast (kind : RecordKind) (t : Table) : Except JournalError (Option Record) :=
  match t.getLast? with
  | none => .ok none
  | some (_, text) => (decode kind text).map some

def replay (j : Journal) (id : String) : Except JournalError (List Record) :=
  (j.entries.inRange (.ofId id)).mapM fun (_, text) => decode .entry text

def load (j : Journal) (id : String) : Except JournalError (Option Record) :=
  decodeLast .snapshot (j.snapshots.inRange (.ofId id))

def append (j : Journal) (stamp : Nat) (id : String) (seq : Nat) (payload : String) :
    Except JournalError Journal := do
  if id = "" then refuse "empty persistence id"
  let last ← decodeLast .entry (j.entries.inRange (.ofId id))
  match last with
  | some last =>
    if seq ≤ last.seq then
      refuse ("seq " ++ Text.decimal seq ++ " is not above stored seq " ++
        Text.decimal last.seq ++ " for " ++ id)
  | none => pure ()
  let text := Record.toJson .entry ⟨id, seq, payload, stamp⟩
  return { j with entries := j.entries.insert (recordKey id seq) text }

def save (j : Journal) (stamp : Nat) (id : String) (seq : Nat) (payload : String) :
    Except JournalError Journal := do
  if id = "" then refuse "empty persistence id"
  let text := Record.toJson .snapshot ⟨id, seq, payload, stamp⟩
  return { j with snapshots := j.snapshots.insert (recordKey id seq) text }

def prune (j : Journal) (id : String) (seq : Nat) : Journal × PruneCount :=
  let range := KeyRange.below id seq
  (⟨j.entries.removeRange range, j.snapshots.removeRange range⟩,
    ⟨.ofNat (j.entries.inRange range).length, .ofNat (j.snapshots.inRange range).length⟩)

end Journal
end HealthSignal
