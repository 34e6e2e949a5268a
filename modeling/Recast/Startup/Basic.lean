import Recast.Startup.Arguments
import Recast.Workspace

/-!
# Start-up

The program is started with arguments and an environment.  Arguments outweigh the environment, and
what neither tells keeps its default.
-/

namespace Recast

/-- The variables of the environment that count. -/
structure Environment where
  config? : Option Text := none
  logLevel? : Option Text := none
  logFile? : Option Text := none

/-- What there is to do at start-up. -/
structure Plan where
  /-- How severe a record has to be to be written. -/
  threshold : Severity
  /-- The file of the log; the log goes to standard error if there is none. -/
  logFile? : Option Text
  /-- The path of the settings, if they are not the default. -/
  configPath? : Option Text

/-- The text, unless it is empty. -/
def nonempty? (t? : Option Text) : Option Text :=
  t?.filter fun t ↦ !t.isEmpty

/-- The plan that options and environment make. -/
def Plan.ofOptions (options : Options) (environment : Environment) : Plan where
  threshold :=
    match options.logLevel?, environment.logLevel? with
    | some severity, _ => severity
    | none, some name => .resolve name
    | none, none => .info
  logFile? := nonempty? options.logFile? <|> environment.logFile?
  configPath? := nonempty? options.config? <|> nonempty? environment.config?

/-- How a start ends. -/
inductive Ending where
  | running
  | helped
  | misused
  | refused
  deriving DecidableEq, Repr

/-- The exit status of a start that does not lead to a running program. -/
def Ending.status? : Ending → Option Nat
  | running => none
  | helped => some 0
  | refused => some 1
  | misused => some 2

/-- What a start has brought about. -/
structure Startup where
  ending : Ending
  /-- The path of the settings, if they were to be read. -/
  configPath? : Option Text := none
  /-- The active settings. -/
  settings : Settings := {}
  /-- The file of the log, if there is one. -/
  logFile? : Option Text := none
  /-- The records that were written to the log. -/
  log : List Record := []

namespace Startup

/-- Carries out a plan, given what is found at a path. -/
def ofPlan (find? : Text → Option Found) (plan : Plan) : Startup :=
  let settled (settings : Settings) : Startup :=
    { ending := .running
      configPath? := plan.configPath?
      settings := settings
      logFile? := plan.logFile?
      log := Record.written plan.threshold [.loaded plan.configPath? settings] }
  match plan.configPath? with
  | none => settled {}
  | some path =>
    match Settings.ofPath path (find? path) with
    | .ok settings => settled settings
    | .error error =>
      { ending := .refused
        configPath? := some path
        logFile? := plan.logFile?
        log := Record.written plan.threshold [.refused error] }

/-- Starts the program in a workspace.  The log file is there before the settings are looked for. -/
def inWorkspace (workspace : Workspace) (environment : Environment) (arguments : List Text) :
    Startup :=
  match Command.ofArguments arguments with
  | .help => { ending := .helped }
  | .misuse => { ending := .misused }
  | .start options =>
    let plan := Plan.ofOptions options environment
    ofPlan (workspace.withFile? plan.logFile?).find? plan

/-- The records that went to standard error. -/
def errorLog (startup : Startup) : List Record :=
  if startup.logFile?.isNone then startup.log else []

/-- The records in a file of the workspace, if there is such a file. -/
def fileLog? (startup : Startup) (workspace : Workspace) (path : Text) : Option (List Record) :=
  if startup.logFile?.any (workspace.samePlace path) then some startup.log
  else match workspace.find? path with
    | some (.file _) => some []
    | _ => none

end Startup

end Recast
