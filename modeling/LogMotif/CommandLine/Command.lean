import LogMotif.Action.Reader
import LogMotif.CommandLine.Arguments
import LogMotif.CommandLine.Help
import LogMotif.CommandLine.Report

/-! # The command

The command loads a log, opens a session over the chosen rows, applies the actions in the given
file, searches the log, and prints a report. The actions are all read before the first is applied.
Removing the last entry ends the command with nothing to report. The command works over any file
operations, so it can be run on a tree of files in memory.
-/

namespace LogMotif.CommandLine

/-- What the command leaves to its caller. -/
structure Exit where
  code : Nat
  output : String := ""
  errorOutput : String := ""
deriving DecidableEq, Repr

/-- A part of the command, which may fail. -/
abbrev Command (m : Type → Type) := ExceptT Failure m

variable {m : Type → Type} [Monad m]

/-- The configuration in a file, or the default if there is none. -/
def loadConfig (files : Files m) (path? : Option String) : m Config := do
  match path? with
  | none => return {}
  | some path =>
    match ← files.readText path with
    | .ok text => return Config.ofText text
    | .error _ => return {}

/-- Save a configuration to a file, creating the directories above it. -/
def saveConfig (files : Files m) (config : Config) (path : String) : Command m Unit := do
  match ← files.ensureDirectories (Path.parent path) with
  | .error error => throw { message := "Failed to create config directory: " ++ error.message }
  | .ok () =>
    match ← files.write path config.toText with
    | .error error => throw { message := "Failed to write config file: " ++ error.message }
    | .ok () => return ()

/-- Load the log and filter it. -/
def loadLog (files : Files m) (arguments : Arguments) : Command m Log := do
  let loaded : Except LoadError Log :=
    match ← files.read arguments.log with
    | .error error => .error (.unreadable arguments.log error)
    | .ok bytes => Log.ofBytes bytes arguments.ruleColumns
  match loaded with
  | .error error =>
    throw ((Failure.ofLoadError error).within ("Failed to load " ++ arguments.log))
  | .ok log =>
    match arguments.filterText with
    | none => return log
    | some text =>
      let column := FilterColumn.ofName log.headers arguments.filterColumn
      liftExcept (log.filtered column text)
where
  /-- Fail with a load error. -/
  liftExcept : Except LoadError Log → Command m Log
    | .ok log => return log
    | .error error => throw (.ofLoadError error)

/-- Read the actions to apply. -/
def readActions (files : Files m) (path? : Option String) : Command m (List Action) := do
  match path? with
  | none => return []
  | some path =>
    match ← files.readText path with
    | .error error =>
      throw { message := "Failed to read " ++ path, causes := [error.message] }
    | .ok text =>
      match Action.listOfText text with
      | .ok actions => return actions
      | .error fault =>
        throw { message := "Invalid actions in " ++ path, causes := [fault.message] }

/-- Apply actions in order, numbered from `first`. -/
def applyActions (session : Session) (first : Nat) : List Action → Except Failure Transition
  | [] => .ok (.updated session)
  | action :: rest =>
    match session.apply action with
    | .error error =>
      .error ((Failure.ofMotifError error).within s!"Action {first} failed")
    | .ok .closed => .ok .closed
    | .ok (.updated next) => applyActions next (first + 1) rest

/-- Search a log and report. -/
def searchAndReport (log : Log) (roles : List ColumnRole) (session : Session) (step : Int) :
    Except Failure String :=
  (show Except MotifError String from do
    let query ← session.compile
    let corpus ← log.corpus roles
    let session ← session.search corpus
    return (report query (session.step step)).pretty ++ "\n").mapError Failure.ofMotifError

/-- Search as the arguments say and give back what is printed. -/
def execute (files : Files m) (program : Program) (arguments : Arguments) :
    Command m String := do
  let config ← ExceptT.lift (loadConfig files (arguments.config.or program.userConfig))
  if let some path := arguments.writeConfig then saveConfig files config path
  let log ← loadLog files arguments
  let roles := log.roles config
  let rows ← ExceptT.mk (pure ((log.selectRows arguments.select).mapError Failure.ofLoadError))
  let session ← ExceptT.mk (pure
    ((Session.start log.headers roles rows config.sessionOptions).mapError Failure.ofMotifError))
  let actions ← readActions files arguments.actions
  match ← ExceptT.mk (pure (applyActions session 0 actions)) with
  | .closed => return ""
  | .updated session => ExceptT.mk (pure (searchAndReport log roles session arguments.step))

/-- Run the command on its arguments. Arguments that are refused exit with 2, failures with 1. -/
def run (files : Files m) (program : Program) (arguments : List String) : m Exit := do
  match parse arguments with
  | none => return { code := 2, errorOutput := program.usage ++ "\n" }
  | some (.inquire .help) => return { code := 0, output := program.help }
  | some (.inquire .version) => return { code := 0, output := program.versionLine }
  | some (.search arguments) =>
    match ← (execute files program arguments).run with
    | .ok output => return { code := 0, output }
    | .error failure => return { code := 1, errorOutput := failure.text }

end LogMotif.CommandLine
