import LogMotif.CommandLine.Command

/-! # The program

The command on the file system of the machine. The configuration of the user is looked for in the
directory that the environment names for configurations.
-/

namespace LogMotif

/-- The failure that the machine reports by a code, which may have either sign. -/
def FileError.ofCode (code : UInt32) (details : String) : FileError :=
  match if code < 0x80000000 then code else 0 - code with
  | 2 => .notFound
  | 17 => .exists
  | 20 => .notDirectory
  | 21 => .isDirectory
  | 36 => .nameTooLong
  | number => .other s!"{details} (os error {number})"

/-- The failure of a file operation of the machine. -/
def FileError.ofSystem : IO.Error → FileError
  | .noFileOrDirectory .. => .notFound
  | .alreadyExists .. => .exists
  | .inappropriateType _ code details | .permissionDenied _ code details
  | .resourceExhausted _ code details | .invalidArgument _ code details
  | .otherError code details | .resourceBusy code details | .illegalOperation code details =>
    .ofCode code details
  | error => .other (toString error)

/-- The result of an action on the machine, or the failure. -/
def attemptOnFiles (action : IO α) : IO (Except FileError α) := do
  match ← action.toBaseIO with
  | .ok result => return .ok result
  | .error error => return .error (.ofSystem error)

/-- The file operations of the machine. -/
def systemFiles : Files IO where
  read path := attemptOnFiles (IO.FS.readBinFile path)
  write path content := attemptOnFiles (IO.FS.writeFile path content)
  createDirectory path := attemptOnFiles (IO.FS.createDir path)
  isDirectory path := do
    match ← attemptOnFiles (IO.FS.realPath path) with
    | .ok place => place.isDir
    | .error _ => return false

/-- The directory for the configurations of the user. A relative one does not count. -/
def configDirectory? : IO (Option String) := do
  let named := (← IO.getEnv "XDG_CONFIG_HOME").filter (·.startsWith "/")
  return named.or ((← IO.getEnv "HOME").map (· ++ "/.config"))

/-- The running program and its user. -/
def runningProgram : IO CommandLine.Program := do
  return {
    name := (← IO.appPath).fileName.getD "logmotif"
    configDirectory := ← configDirectory? }

end LogMotif

/-- Run the command on the arguments, print what it leaves to be printed, and give back its code. -/
def main (arguments : List String) : IO UInt32 := do
  let exit ← LogMotif.CommandLine.run LogMotif.systemFiles (← LogMotif.runningProgram) arguments
  IO.print exit.output
  IO.eprint exit.errorOutput
  return exit.code.toUInt32
