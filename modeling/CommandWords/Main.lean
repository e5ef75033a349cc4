import CommandWords.Session

/-!
# The command line

Gathers what a run depends on, runs, and writes what the run leaves behind.
-/

open CommandWords

/-- Why something that is there cannot be read. -/
def readReason : IO.Error → String
  | .inappropriateType _ code details => s!"{details} (os error {code})"
  | .permissionDenied _ code details => s!"{details} (os error {code})"
  | error => toString error

/-- What is found at a path. A path that leads nowhere, be it through a plain file, counts as one at
which there is nothing. -/
def fileState (path : String) : IO FileState := do
  match ← (IO.FS.realPath path).toBaseIO with
  | .error _ => return .absent
  | .ok _ =>
    match ← (IO.FS.readBinFile path).toBaseIO with
    | .ok bytes => return .contents bytes
    | .error error => return .unreadable (readReason error).toList

/-- What is found at a path, if there is one. -/
def fileState? : Option String → IO FileState
  | some path => fileState path
  | none => return .absent

def main : IO UInt32 := do
  let named ← IO.getEnv "SHELLWORDS_CONFIG"
  let directory ← IO.getEnv "XDG_CONFIG_HOME"
  let home ← IO.getEnv "HOME"
  let outcome := Session.run .plain {
    userFile := ← fileState? (Settings.userPath? named directory home)
    projectFile := ← fileState Settings.projectPath
    logDirective := (← IO.getEnv "SHELLWORDS_LOG").map String.toList
    input := ← (← IO.getStdin).readBinToEnd
    outputWritable := true }
  IO.eprint (String.ofList outcome.errors)
  try
    let stdout ← IO.getStdout
    stdout.putStr (String.ofList outcome.output)
    stdout.flush
    return outcome.exitCode.toUInt32
  catch _ => return 2
