import HealthSignal.Journal.Error
import HealthSignal.Status
import HealthSignal.Text.Decimal

/-!
What a round trip found out, and the verdict that accumulates over round trips. Each axis of the
verdict moves only with a report that exercised it.
-/
namespace HealthSignal.RoundTrip

inductive Failure
  | store (error : JournalError)
  | lost (seq : Nat)
  deriving DecidableEq, Repr

def Failure.message : Failure → String
  | .store e => e.message
  | .lost seq =>
    "record " ++ Text.decimal seq ++ " written by the previous round trip was not recovered"

abbrev Outcome := Option (Except Failure Unit)

structure Report where
  journal : Outcome
  snapshot : Outcome
  /-- The sequence number of the marker entry, once it was acknowledged. -/
  written : Option Nat
  /-- The sequence number of the snapshot, once it was acknowledged. -/
  snapshotted : Option Nat

structure Expectation where
  journal : Option Nat
  snapshot : Option Nat
  deriving DecidableEq, Repr

namespace Expectation

def nothing : Expectation := ⟨none, none⟩

/-- What an axis leaves to expect: what was written if it succeeded, nothing if it failed. -/
def after (old : Option Nat) (outcome : Outcome) (written : Option Nat) : Option Nat :=
  match outcome with
  | some (.ok ()) => written
  | some (.error _) => none
  | none => old

def update (e : Expectation) (r : Report) : Expectation :=
  ⟨after e.journal r.journal r.written, after e.snapshot r.snapshot r.snapshotted⟩

end Expectation

inductive Axis
  | unknown
  | recovered
  | failed
  deriving DecidableEq, Repr

def Axis.after (old : Axis × Option String) : Outcome → Axis × Option String
  | none => old
  | some (.ok ()) => (.recovered, none)
  | some (.error f) => (.failed, some f.message)

structure Verdict where
  journal : Axis
  snapshot : Axis
  journalFailure : Option String
  snapshotFailure : Option String
  deriving DecidableEq, Repr

def warmingUp : Status := .bad "persistence round trip has not completed yet"

def succeeded : Status := .good "persistence round trip succeeded"

namespace Verdict

def initial : Verdict := ⟨.unknown, .unknown, none, none⟩

def update (v : Verdict) (r : Report) : Verdict :=
  let journal := Axis.after (v.journal, v.journalFailure) r.journal
  let snapshot := Axis.after (v.snapshot, v.snapshotFailure) r.snapshot
  ⟨journal.1, snapshot.1, journal.2, snapshot.2⟩

def complaints (v : Verdict) : List String :=
  [("journal", v.journalFailure), ("snapshot", v.snapshotFailure)].filterMap fun (axis, failure) =>
    failure.map (axis ++ ": " ++ ·)

def status (v : Verdict) : Status :=
  if v.journal = .failed ∨ v.snapshot = .failed then
    .bad ("persistence store failure: " ++ String.intercalate "; " v.complaints)
  else if v.journal = .recovered ∧ v.snapshot = .recovered then succeeded
  else warmingUp

end Verdict
end HealthSignal.RoundTrip
