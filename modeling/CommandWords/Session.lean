import CommandWords.Log.Directive
import CommandWords.Request.Execution
import CommandWords.Request.Reader
import CommandWords.Settings.Loading

/-!
# One run of the program

A run loads the settings, reads one request from its input, carries it out and writes the response.
The first of these that fails decides the exit code and the message. What is logged on the way
comes before the message and decides nothing.
-/

namespace CommandWords.Session

/-- All that a run depends on. -/
structure Surroundings where
  userFile : FileState
  projectFile : FileState
  /-- The log directive from outside, which goes before that of the settings, even if it is
  empty. -/
  logDirective : Option Text
  input : ByteArray
  /-- Whether a text can be written to the output. -/
  outputWritable : Bool

/-- Why a run fails. -/
inductive Failure where
  | settings (error : Settings.LoadError)
  /-- The input is not UTF-8. -/
  | input
  /-- The text of the input is no request. -/
  | request (text : Text) (error : Request.Error)
  | execution (error : UnmatchedQuote)
  /-- The response cannot be written. -/
  | output

/-- The exit code of a failed run: 1 if the request was carried out in vain, 2 if it did not come
to that or the response is lost. -/
def Failure.exitCode : Failure → Nat
  | .execution _ => 1
  | _ => 2

/-- The words that other readers have of their own in messages. -/
structure Words where
  json : Request.JsonWords
  /-- What keeps a text from being settings in TOML. -/
  toml : Text → Text

/-- Plain words, which do not say where in a text. -/
def Words.plain : Words where
  json :=
    { fault := fun
        | .truncated, _ => "the text ends where more is needed".toList
        | .malformed, _ => "the text holds something that cannot stand there".toList
      place := fun _ => [] }
  toml := fun _ => "the text holds no settings".toList

/-- The message of a failed run. A response that cannot be written is lost without one. -/
def Failure.message (words : Words) : Failure → Text
  | .settings error => "Config error: ".toList ++ error.message words.toml ++ ['\n']
  | .input => "Failed to read stdin: ".toList ++ encodingReason ++ ['\n']
  | .request text error => "Invalid request: ".toList ++ error.message words.json text ++ ['\n']
  | .execution error => error.message ++ ['\n']
  | .output => []

/-- What a run leaves behind. -/
structure Outcome where
  exitCode : Nat
  output : Text
  /-- What is written beside the output: the logged lines and the message of a failure. -/
  errors : Text
deriving DecidableEq, Repr

/-- The request that the input holds. -/
def readRequest (input : ByteArray) : Except Failure Request :=
  match decodeText? input with
  | none => .error .input
  | some text => (Request.parse text).mapError (.request text)

/-- The text of a response, if it can be written. The empty text always can. -/
def write (writable : Bool) (text : Text) : Except Failure Text :=
  if writable || text.isEmpty then .ok text else .error .output

/-- The output of a run with given settings, and the events on the way. -/
def respond (settings : Settings) (s : Surroundings) : Except Failure Text × List Log.Event :=
  match readRequest s.input with
  | .error failure => (.error failure, [])
  | .ok request =>
    let execution := request.execute
    let output := do
      let response ← execution.result.mapError Failure.execution
      write s.outputWritable (response.render settings.outputFormat settings.isPretty)
    (output, execution.events)

/-- The outcome of a run with a given result and given lines in the log. -/
def conclude (words : Words) (log : Text) : Except Failure Text → Outcome
  | .ok output => ⟨0, output, log⟩
  | .error failure => ⟨failure.exitCode, [], log ++ failure.message words⟩

/-- One run of the program. -/
def run (words : Words) (s : Surroundings) : Outcome :=
  match Settings.load s.userFile s.projectFile with
  | .error error => conclude words [] (.error (.settings error))
  | .ok settings =>
    let (result, events) := respond settings s
    conclude words (Log.lines (s.logDirective.or settings.log) events) result

end CommandWords.Session
