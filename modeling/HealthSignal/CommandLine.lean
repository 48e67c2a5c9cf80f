import HealthSignal.CommandLine.Help
import HealthSignal.Config.Document
import HealthSignal.Daemon

/-!
What a command does with the configuration file it names, and what the program leaves behind.
-/
namespace HealthSignal
namespace CommandLine

structure Output where
  code : UInt32
  stdout : String
  stderr : String
  deriving DecidableEq, Repr

def failed (message : String) : Output := ⟨1, "", "Error: " ++ message ++ "\n"⟩

def UsageError.message : UsageError → String
  | .help _ => ""
  | .noCommand => "a command is required"
  | .unknownCommand name => "unrecognized command '" ++ name ++ "'"
  | .unexpected argument => "unexpected argument '" ++ argument ++ "' found"
  | .missingValue option => "a value is required for '--" ++ option ++ "' but none was supplied"
  | .repeated option => "the argument '--" ++ option ++ "' cannot be used multiple times"
  | .badValue option value => "invalid value '" ++ value ++ "' for '--" ++ option ++ "'"

/-- Asking for help is no failure. -/
def UsageError.output : UsageError → Output
  | .help topic => ⟨0, topic.page, ""⟩
  | e => ⟨2, "", "error: " ++ e.message ++ "\n\nFor more information, try '--help'.\n"⟩

end CommandLine

def Config.LoadError.message : Config.LoadError → String
  | .io e => e.message
  | .notToml e => "TOML parse error: " ++ e.message
  | .schema e => "TOML parse error: " ++ e.message

namespace CommandLine

inductive Outcome
  | done (output : Output)
  | serving (daemon : Daemon) (address : SocketAddress)

def address (c : Config) : Except String SocketAddress :=
  match SocketAddress.literal? (c.http.host ++ ":" ++ Text.decimal c.http.port.toNat) with
  | none => .error "invalid socket address syntax"
  | some a =>
    match Sockets.empty.listen a with
    | .ok (a, _) => .ok a
    | .error e => .error e.message

/-- Starts the daemon, with its journal in memory. The probes and their components start before the address is looked
at. -/
def start (c : Config) (files : FileTree) : Outcome :=
  match (Daemon.start .volatile c files 0).2 with
  | .error e => .done (failed e.message)
  | .ok d =>
    match address c with
    | .error reason => .done (failed reason)
    | .ok a => .serving d a

/-- Carries out a command, given what the file it names holds: nothing if there is no such file, and
an error if it cannot be read. -/
def Command.execute (c : Command) (content : Except IoError (Option ByteArray))
    (files : FileTree) : Outcome :=
  match (content.mapError Config.LoadError.io).bind Config.load with
  | .error e => .done (failed e.message)
  | .ok config =>
    match c.action with
    | .config => .done ⟨0, config.text, ""⟩
    | .run none => start config files
    | .run (some port) => start { config with http := { config.http with port := port } } files

end CommandLine
end HealthSignal
