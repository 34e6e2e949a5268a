import Recast.Session.Basic
import Recast.Startup.Basic

/-!
# The command line

Reads a program from standard input and writes it in the default target language of the settings.
-/

namespace Recast.CommandLine

/-- How the program is called. -/
def usage : String :=
  "usage: recast [-h] [--config PATH] [--log-level LEVEL] [--log-file PATH]"

/-- What is found at a path of the file system. -/
def find (path : String) : IO (Option Found) := do
  try
    let place ← IO.FS.realPath path
    if ← place.isDir then return some .folder
    return some (.file (← IO.FS.readFile place).toList)
  catch _ => return none

/-- The variables of the environment that count. -/
def environment : IO Environment := do
  return {
    config? := (← IO.getEnv "CODESHIFT_CONFIG").map String.toList
    logLevel? := (← IO.getEnv "LOG_LEVEL").map String.toList
    logFile? := (← IO.getEnv "LOG_FILE").map String.toList }

/-- Adds lines to a file, which is made if it is not there. -/
def append (path : String) (lines : String) : IO Unit := do
  let handle ← IO.FS.Handle.mk path .append
  handle.putStr lines

/-- Carries out a plan: the log file is made, the settings are read and the log is written. -/
def start (plan : Plan) : IO Startup := do
  if let some file := plan.logFile? then append (String.ofList file) ""
  let found? ← match plan.configPath? with
    | some path => find (String.ofList path)
    | none => pure none
  let startup := Startup.ofPlan (fun _ ↦ found?) plan
  let lines := String.ofList (Text.unlines (startup.log.map Record.line ++ [[]]))
  match plan.logFile? with
  | some file => append (String.ofList file) lines
  | none => (← IO.getStderr).putStr lines
  return startup

/-- The whole of standard input. -/
partial def readAll (input : IO.FS.Stream) (sofar : String) : IO String := do
  let line ← input.getLine
  if line.isEmpty then return sofar else readAll input (sofar ++ line)

/-- Recasts the program on standard input. -/
def serve (settings : Settings) : IO UInt32 := do
  let code ← readAll (← IO.getStdin) ""
  match settings.answer (.transform code.toList none none false) with
  | .ok (.transformation transformation _ _) =>
    IO.println (String.ofList transformation.code)
    return 0
  | .ok _ => return 0
  | .error error =>
    IO.eprintln (String.ofList error.message)
    return 1

end Recast.CommandLine

open Recast CommandLine in
/-- Starts the program and recasts what it is given. -/
def main (arguments : List String) : IO UInt32 := do
  match Command.ofArguments (arguments.map String.toList) with
  | .help => IO.println usage; return 0
  | .misuse => IO.eprintln usage; return 2
  | .start options =>
    let startup ← start (.ofOptions options (← environment))
    match startup.ending.status? with
    | some status => return status.toUInt32
    | none => serve startup.settings
