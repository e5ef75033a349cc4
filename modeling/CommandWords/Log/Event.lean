import CommandWords.Line.Split
import CommandWords.Request.Basic
import CommandWords.Text.Quoted

/-!
# Events

What the program can tell about its work while it runs: an event has a level, a target, which
says what part of the work it belongs to, and a message.
-/

namespace CommandWords.Log

/-- How severe an event is, the most severe first. -/
inductive Level where
  | error
  | warn
  | info
  | debug
  | trace
deriving DecidableEq, Repr

/-- The place of a level in the order of severity, the most severe first. -/
def Level.rank : Level → Nat
  | .error => 1
  | .warn => 2
  | .info => 3
  | .debug => 4
  | .trace => 5

/-- The name of a level in capitals. -/
def Level.name : Level → Text
  | .error => "ERROR".toList
  | .warn => "WARN".toList
  | .info => "INFO".toList
  | .debug => "DEBUG".toList
  | .trace => "TRACE".toList

/-- Something that happened. -/
structure Event where
  level : Level
  target : Text
  message : Text
deriving DecidableEq, Repr

/-- The line that reports an event. -/
def Event.line (event : Event) : Text :=
  event.level.name ++ ' ' :: event.target ++ ": ".toList ++ event.message ++ ['\n']

/-- The target of the work on requests. -/
def requestTarget : Text := "shellwords::command".toList

/-- The target of the splitting of lines. -/
def splitTarget : Text := "shellwords::shell::tokenizer".toList

/-- The form of a step in messages. -/
def stepText : Step → Text
  | .word text => "Word(".toList ++ quotedText text ++ [')']
  | .singleQuoted content => "SingleQuoted(".toList ++ quotedText content ++ [')']
  | .doubleQuoted content => "DoubleQuoted(".toList ++ quotedText content ++ [')']
  | .escaped (some c) => "Escaped(Some(".toList ++ quotedChar c ++ "))".toList
  | .escaped none => "Escaped(None)".toList
  | .unclosed quote => "Garbage(".toList ++ quotedChar quote.char ++ [')']

/-- A request is about to be carried out. -/
def executing (kind : Request.Kind) : Event :=
  ⟨.debug, requestTarget, "executing request op=".toList ++ quotedText kind.name⟩

/-- A step of a line has been read. -/
def scanStep (found : StepMatch) : Event :=
  ⟨.trace, splitTarget, "scan step step=".toList ++ stepText found.step ++ " separated=".toList ++
    (if found.separated then "true" else "false").toList⟩

/-- A quote is never closed. -/
def unmatchedQuote (e : UnmatchedQuote) : Event :=
  ⟨.debug, splitTarget, "unmatched quote quote=".toList ++ e.quote.char :: " offset=".toList ++
    Nat.toDigits 10 e.offset⟩

/-- The events of the splitting of a line. -/
def splitEvents (report : SplitReport) : List Event :=
  report.steps.map scanStep ++
    match report.words with
    | .ok _ => []
    | .error e => [unmatchedQuote e]

end CommandWords.Log
