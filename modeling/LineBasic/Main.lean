import LineBasic.Shell.Command

/-!
# The program

The outer layer: it answers the requests of the command by means of the real system.
-/

open LineBasic

/-- The host error that an error with a file stands for. -/
def hostError? : IO.Error → Option HostError
  | .noFileOrDirectory _ _ _ => some .missingFile
  | .inappropriateType _ _ _ => some .directoryGiven
  | .permissionDenied _ _ _ => some .accessDenied
  | _ => none

/-- Try an action on a file. -/
def attemptFile {α : Type} (name : String) (action : IO α) : IO (Except HostError α) := do
  if '\x00' ∈ name.toList then return .error .nulInFileName
  try
    let result ← action
    return .ok result
  catch e =>
    match hostError? e with
    | some h => return .error h
    | none => throw e

/-- Read a line of the standard input. -/
def readInputLine : IO (Option String) := do
  let stdin ← IO.getStdin
  let line ← stdin.getLine
  return if line.isEmpty then none else some line

/-- Read the standard input to its end. -/
partial def readInput (text : String) : IO String := do
  match ← readInputLine with
  | none => return text
  | some line => readInput (text ++ line)

/-- Answer a request. -/
def answerRequest {β : Type} : Request β → IO β
  | .exists name => do
      try
        let _ ← IO.FS.Handle.mk name .read
        return true
      catch _ => return false
  | .fileContent name => attemptFile name do
      let bytes ← IO.FS.readBinFile name
      return bytes.toList
  | .startFile name => attemptFile name (IO.FS.writeFile name "")
  | .extendFile name text => do
      let handle ← IO.FS.Handle.mk name .append
      handle.putStr text
  | .readLine => readInputLine
  | .readAll => readInput ""
  | .print text => do
      let stdout ← IO.getStdout
      stdout.putStr text
      stdout.flush
  | .printError text => IO.eprint text
  | .sleep seconds => IO.sleep (seconds * 1000).toUInt32
  | .platform => return "Lean"

/-- The directory of all configurations of the user. -/
def configurationHome : IO String := do
  match ← IO.getEnv "XDG_CONFIG_HOME" with
  | some dir => if dir ≠ "" then return dir
  | none => pure ()
  let home ← IO.getEnv "HOME"
  return home.getD "" ++ "/.config"

/-- Run the command and exit with its status. -/
def main (args : List String) : IO UInt32 := do
  let userFile := (← configurationHome) ++ "/" ++ Shell.userConfiguration
  match ← (Shell.command userFile args).run.perform answerRequest with
  | .ok status => return status.toUInt32
  | .error e =>
      IO.eprintln ("Stopped by " ++ e.meaning)
      return 1
