import HealthSignal.Text.Decimal

/-!
The command that the arguments of the program make.
-/
namespace HealthSignal.CommandLine

inductive LogFormat
  | text
  | json
  deriving DecidableEq, Repr

inductive Action
  /-- Runs the daemon, on a port other than the configured one if there is one here. -/
  | run (port : Option UInt16)
  | config
  deriving DecidableEq, Repr

structure Command where
  action : Action
  config : String
  logFormat : LogFormat
  deriving DecidableEq, Repr

inductive Topic
  | program
  | run
  | config
  | help
  deriving DecidableEq, Repr

def Topic.ofName? (name : String) : Option Topic :=
  if name = "run" then some .run
  else if name = "config" then some .config
  else if name = "help" then some .help
  else none

inductive UsageError
  | help (topic : Topic)
  | noCommand
  | unknownCommand (name : String)
  | unexpected (argument : String)
  | missingValue (option : String)
  | repeated (option : String)
  | badValue (option value : String)
  deriving DecidableEq, Repr

/-! ### Options -/

inductive Setting
  | logFormat
  | config
  | port
  deriving DecidableEq, Repr

def Setting.name : Setting → String
  | .logFormat => "log-format"
  | .config => "config"
  | .port => "port"

def Topic.settings : Topic → List Setting
  | .program => [.logFormat]
  | .run => [.config, .logFormat, .port]
  | .config => [.config, .logFormat]
  | .help => []

structure Options where
  logFormat : Option LogFormat := none
  config : Option String := none
  port : Option UInt16 := none
  deriving DecidableEq, Repr

def readPort? (cs : List Char) : Option UInt16 :=
  let number : Option Nat := match cs with
    | '-' :: digits => (Text.readDigits? digits).filter (· == 0)
    | '+' :: digits => Text.readDigits? digits
    | digits => Text.readDigits? digits
  (number.filter (· < UInt16.size)).map UInt16.ofNat

def readLogFormat? (value : String) : Option LogFormat :=
  if value = "text" then some .text else if value = "json" then some .json else none

def Options.note (o : Options) (s : Setting) (value : String) : Except UsageError Options :=
  match s with
  | .logFormat =>
    if o.logFormat.isSome then .error (.repeated s.name)
    else match readLogFormat? value with
      | some f => .ok { o with logFormat := some f }
      | none => .error (.badValue s.name value)
  | .config =>
    if o.config.isSome then .error (.repeated s.name)
    else if value = "" then .error (.missingValue s.name)
    else .ok { o with config := some value }
  | .port =>
    if o.port.isSome then .error (.repeated s.name)
    else match readPort? value.toList with
      | some port => .ok { o with port := some port }
      | none => .error (.badValue s.name value)

def long? (argument : String) : Option (String × Option String) :=
  match argument.toList with
  | '-' :: '-' :: cs =>
    let value := match cs.dropWhile (· ≠ '=') with
      | _ :: v => some (String.ofList v)
      | [] => none
    some (String.ofList (cs.takeWhile (· ≠ '=')), value)
  | _ => none

def isFlag (argument : String) : Bool :=
  match argument.toList with
  | '-' :: _ :: _ => true
  | _ => false

def asksHelp (argument : String) : Bool :=
  argument == "--help" || argument.toList.take 2 == ['-', 'h']

/-- How far the options of a command are read. The value that stands in an argument of its own is looked
at when the next option starts, or at the end. -/
structure Reading where
  options : Options := {}
  /-- The option that was named last, with the argument after it. -/
  pending : Option (Setting × Option String) := none
  deriving DecidableEq, Repr

namespace Reading

def awaited? (r : Reading) : Option Setting :=
  match r.pending with
  | some (s, none) => some s
  | _ => none

def settle (r : Reading) : Except UsageError Options :=
  match r.pending with
  | none => .ok r.options
  | some (s, none) => .error (.missingValue s.name)
  | some (s, some value) => r.options.note s value

def readAll (topic : Topic) (r : Reading) :
    (arguments : List String) → Except UsageError (Reading × List String)
  | [] => .ok (r, [])
  | argument :: rest =>
    match r.awaited? with
    | some s =>
      if isFlag argument then .error (.missingValue s.name)
      else readAll topic { r with pending := some (s, some argument) } rest
    | none =>
      if argument = "--" then
        match rest with
        | [] => .ok (r, [])
        | argument :: _ => .error (.unexpected argument)
      else if asksHelp argument then do
        let _ ← r.settle
        .error (.help topic)
      else match long? argument with
        | some (name, value) =>
          match topic.settings.find? (·.name == name), value with
          | none, _ => .error (.unexpected argument)
          | some s, some value => do readAll topic ⟨← (← r.settle).note s value, none⟩ rest
          | some s, none => do readAll topic ⟨← r.settle, some (s, none)⟩ rest
        | none =>
          if isFlag argument then .error (.unexpected argument) else .ok (r, argument :: rest)

end Reading

/-! ### Commands -/

/-- Reads the options that follow the name of a command; nothing else may follow it. -/
def readCommand (topic : Topic) (arguments : List String) : Except UsageError Options := do
  let (inner, rest) ← Reading.readAll topic {} arguments
  match rest with
  | argument :: _ => .error (.unexpected argument)
  | [] => inner.settle

/-- The command that options make before and after its name. Without a path, the configuration is a file
of the working directory. -/
def Options.command (outer inner : Options) (action : Action) : Command :=
  ⟨action, inner.config.getD "pulse.toml", (inner.logFormat.or outer.logFormat).getD .text⟩

def helpTopic : List String → UsageError
  | [] => .help .program
  | name :: rest =>
    match Topic.ofName? name, rest with
    | none, _ => .unknownCommand name
    | some topic, [] => .help topic
    | some _, name :: _ => .unknownCommand name

/-- The command that the arguments make. A value put off before the name of a command is looked at when
all that follows the name is read, and not at all when help is asked for. -/
def parse (arguments : List String) : Except UsageError Command := do
  let (outer, rest) ← Reading.readAll .program {} arguments
  match rest with
  | [] => do
    let _ ← outer.settle
    .error .noCommand
  | name :: rest =>
    match Topic.ofName? name with
    | some .run => do
      let inner ← readCommand .run rest
      return (← outer.settle).command inner (.run inner.port)
    | some .config => do
      let inner ← readCommand .config rest
      return (← outer.settle).command inner .config
    | some .help => .error (helpTopic rest)
    | some .program | none => .error (.unknownCommand name)

end HealthSignal.CommandLine
