import HealthSignal.Journal.Basic
import HealthSignal.RoundTrip.Report

/-!
One round trip: recover what the previous one left, append a marker, save a snapshot of it, report,
and prune what is older. The worker asks for one store call at a time and is resumed with the answer.
-/
namespace HealthSignal.RoundTrip

inductive Call
  | load
  | replay
  | append (seq : Nat) (payload : String)
  | save (seq : Nat) (payload : String)
  | prune (below : Nat)
  deriving DecidableEq, Repr

def Call.Answer : Call → Type
  | .load => Option Nat
  | .replay => List Nat
  | .append .. | .save .. | .prune _ => Unit

inductive Stage
  | loading
  | replaying (recovered : Except Failure Nat)
  | appending (recovered : Except Failure Nat) (seq : Nat)
  | saving (seq : Nat)
  | pruning (seq : Nat)

structure Worker where
  id : String
  /-- Counts the round trips of a probe from one. -/
  attempt : Nat
  expect : Expectation
  stage : Stage

namespace Worker

def start (id : String) (attempt : Nat) (expect : Expectation) : Worker :=
  ⟨id, attempt, expect, .loading⟩

def marker (w : Worker) : String := "round trip " ++ Text.decimal w.attempt ++ " of " ++ w.id

def callOf (marker : String) : Stage → Call
  | .loading => .load
  | .replaying _ => .replay
  | .appending _ seq => .append seq marker
  | .saving seq => .save seq marker
  | .pruning seq => .prune seq

def call (w : Worker) : Call := callOf w.marker w.stage

inductive Progress
  | ask (stage : Stage)
  | report (r : Report) (next : Option Stage)
  | exit

/-- The sequence number of the latest snapshot, which must not be below the expected one. -/
def recoverSnapshot (expect : Option Nat) : Except JournalError (Option Nat) → Except Failure Nat
  | .error e => .error (.store e)
  | .ok seq =>
    match expect with
    | some expected => if seq.all (· < expected) then .error (.lost expected) else .ok (seq.getD 0)
    | none => .ok (seq.getD 0)

def outcome (recovered : Except Failure Nat) : Except Failure Unit := recovered.map fun _ => ()

/-- The last replayed sequence number; the expected entry must be among them. -/
def recoverEntries (expect : Option Nat) : Except JournalError (List Nat) → Except Failure Nat
  | .error e => .error (.store e)
  | .ok seqs =>
    match expect.filter (!seqs.contains ·) with
    | some seq => .error (.lost seq)
    | none => .ok (seqs.getLast?.getD 0)

def nextSeq (highest : Nat) (recovered : Except Failure Nat) : Nat :=
  max highest (recovered.toOption.getD 0) + 1

/-- Reports, and prunes below `seq` unless this is the first attempt or no snapshot was saved. -/
def finish (attempt seq : Nat) (snapshot : Except Failure Unit) : Progress :=
  match snapshot with
  | .ok () =>
    .report ⟨some (.ok ()), some (.ok ()), some seq, some seq⟩
      (if attempt > 1 then some (.pruning seq) else none)
  | .error f => .report ⟨some (.ok ()), some (.error f), some seq, none⟩ none

def resumeAt (attempt : Nat) (expect : Expectation) (marker : String) :
    (s : Stage) → Except JournalError (callOf marker s).Answer → Progress
  | .loading, answer => .ask (.replaying (recoverSnapshot expect.snapshot answer))
  | .replaying recovered, answer =>
    match recoverEntries expect.journal answer with
    | .error f => .report ⟨some (.error f), some (outcome recovered), none, none⟩ none
    | .ok highest => .ask (.appending recovered (nextSeq highest recovered))
  | .appending recovered _, .error e =>
    .report ⟨some (.error (.store e)), match recovered with
      | .error f => some (.error f)
      | .ok _ => none, none, none⟩ none
  | .appending recovered seq, .ok () =>
    match recovered with
    | .error f => finish attempt seq (.error f)
    | .ok _ => .ask (.saving seq)
  | .saving seq, .error e => finish attempt seq (.error (.store e))
  | .saving seq, .ok () => finish attempt seq (.ok ())
  | .pruning _, _ => .exit

def resume (w : Worker) (answer : Except JournalError w.call.Answer) : Progress :=
  resumeAt w.attempt w.expect w.marker w.stage answer

end Worker

def Call.perform (id : String) (stamp : Nat) (j : Journal) :
    (c : Call) → Except JournalError c.Answer × Journal
  | .load => ((j.load id).map (·.map Record.seq), j)
  | .replay => ((j.replay id).map (·.map Record.seq), j)
  | .append seq payload =>
    match j.append stamp id seq payload with
    | .ok j => (.ok (), j)
    | .error e => (.error e, j)
  | .save seq payload =>
    match j.save stamp id seq payload with
    | .ok j => (.ok (), j)
    | .error e => (.error e, j)
  | .prune seq => (.ok (), (j.prune id seq).1)

end HealthSignal.RoundTrip
