import HealthSignal.CommandLine

/-!
The program. A daemon takes requests from standard input, one in a line: a method and a target. Its signal
files, sockets and journal are kept in memory.
-/
open HealthSignal CommandLine

namespace HealthSignal.Program

def emit (o : Output) : IO UInt32 := do
  (← IO.getStdout).putStr o.stdout
  (← IO.getStderr).putStr o.stderr
  return o.code

def contentAt (path : String) : IO (Except IoError (Option ByteArray)) := do
  try
    return .ok (some (← IO.FS.readBinFile path))
  catch
    | .noFileOrDirectory .. => return .ok none
    | e => return .error (.other (toString e))

/-- Answers requests until the input ends. Times are milliseconds since the start. -/
partial def serve (d : Daemon) (started now : Nat) : IO Unit := do
  let line ← (← IO.getStdin).getLine
  let later := (← IO.monoMsNow) - started
  let d := d.advance now later
  if line.isEmpty then return
  match (line.trimAscii.toString.splitOn " ") with
  | [method, target] =>
    let r := d.respond method target
    IO.println (Text.decimal r.code ++ " " ++ r.body)
  | _ => IO.println "400 "
  serve d started later

end HealthSignal.Program

open Program in
def main (arguments : List String) : IO UInt32 := do
  match parse arguments with
  | .error e => emit e.output
  | .ok command =>
    match command.execute (← contentAt command.config) .empty with
    | .done output => emit output
    | .serving d address =>
      IO.eprintln ("health endpoints listening at " ++ address.text)
      serve d (← IO.monoMsNow) 0
      return 0
