/-!
Why a journal call failed.
-/
namespace HealthSignal

namespace JournalError

inductive Kind
  | opening
  | transaction
  | table
  | reading
  | writing
  | encoding
  | decoding
  | rejected
  | task
  deriving DecidableEq, Repr

def Kind.text : Kind → String
  | .opening => "failed to open journal: "
  | .transaction => "transaction error: "
  | .table => "table error: "
  | .reading => "read error: "
  | .writing => "write error: "
  | .encoding => "serialization error: "
  | .decoding => "deserialization error: "
  | .rejected => "write rejected: "
  | .task => "blocking task failed: "

end JournalError

structure JournalError where
  kind : JournalError.Kind
  detail : String
  deriving DecidableEq, Repr

namespace JournalError

def message (e : JournalError) : String := e.kind.text ++ e.detail

def isRejected (e : JournalError) : Bool := e.kind == .rejected

end JournalError
end HealthSignal
