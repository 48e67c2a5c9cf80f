import HealthSignal.CommandLine.Arguments
import HealthSignal.Text.Parts

/-!
Pages of help: what the program or a command is for, how it is called, and rows on all that it takes. A
page is a hundred columns wide; the texts of its rows stand in a column of their own.
-/
namespace HealthSignal.CommandLine

/-- Breaks a text at spaces into lines of at most `width` characters, unless a word alone is longer. -/
def breakLines (width : Nat) (text : String) : List String :=
  let add (lines : List String) (word : String) : List String :=
    match lines with
    | line :: before =>
      if line.length + 1 + word.length ≤ width then (line ++ " " ++ word) :: before
      else word :: lines
    | [] => [word]
  (((Text.parts ' ' text.toList).map String.ofList).foldl add []).reverse

structure HelpRow where
  name : String
  text : String
  deriving DecidableEq, Repr

def spaces (n : Nat) : String := String.ofList (List.replicate n ' ')

def writeRows (rows : List HelpRow) : String :=
  let longest := rows.foldl (fun n r => max n r.name.length) 0
  let column := longest + 4
  let write (r : HelpRow) : String :=
    "  " ++ r.name ++ spaces (longest - r.name.length) ++ "  " ++
      ("\n" ++ spaces column).intercalate (breakLines (100 - column) r.text)
  "\n".intercalate (rows.map write)

namespace Topic

def purpose : Topic → String
  | .program => "Pulse health signal daemon"
  | .run => "Run the daemon"
  | .config => "Print the effective configuration"
  | .help => "Print this message or the help of the given subcommand(s)"

def usage : Topic → String
  | .program => "pulsed [OPTIONS] <COMMAND>"
  | .run => "pulsed run [OPTIONS]"
  | .config => "pulsed config [OPTIONS]"
  | .help => "pulsed help [COMMAND]..."

def explain (topic : Topic) : Setting → HelpRow
  | .logFormat =>
    ⟨"    --log-format <LOG_FORMAT>",
      "Log output format [default: text] [possible values: text, json]"⟩
  | .config =>
    ⟨"    --config <CONFIG>",
      (if topic = .run then "Path to pulse.toml. Defaults apply if the file is absent " else "") ++
        "[default: pulse.toml]"⟩
  | .port => ⟨"    --port <PORT>", "Override the HTTP port from the config file"⟩

def sections (topic : Topic) : List (String × List HelpRow) :=
  let options :=
    [("Options", topic.settings.map topic.explain ++ [⟨"-h, --help", "Print help"⟩])]
  match topic with
  | .program =>
    ("Commands",
      [⟨"run", purpose .run⟩, ⟨"config", purpose .config⟩, ⟨"help", purpose .help⟩]) :: options
  | .run | .config => options
  | .help => [("Arguments", [⟨"[COMMAND]...", "Print help for the subcommand(s)"⟩])]

def page (topic : Topic) : String :=
  let parts := topic.sections.map fun (heading, rows) => heading ++ ":\n" ++ writeRows rows
  "\n\n".intercalate (topic.purpose :: ("Usage: " ++ topic.usage) :: parts) ++ "\n"

end Topic
end HealthSignal.CommandLine
