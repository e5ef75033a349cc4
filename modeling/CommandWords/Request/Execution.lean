import CommandWords.Line.Escape
import CommandWords.Log.Event
import CommandWords.Response

/-!
# Carrying out a request

A request is answered by a response, or fails at a quote that is never closed. The events on the
way are kept beside the result, which does not depend on them.
-/

namespace CommandWords.Request

/-- What carrying out a request gives. -/
structure Execution where
  result : Except UnmatchedQuote Response
  events : List Log.Event

/-- The response of a request to split a line. -/
def splitResponse (raw : Bool) (report : SplitReport) : Except UnmatchedQuote Response :=
  report.words.map (.words · (if raw then some report.spans else none))

/-- Carries out a request. -/
def execute (request : Request) : Execution :=
  let events := [Log.executing request.kind]
  match request with
  | .split line raw =>
    let report := splitReport line
    ⟨splitResponse raw report, events ++ Log.splitEvents report⟩
  | .escape value => ⟨.ok (.escaped (CommandWords.escape value)), events⟩
  | .join values => ⟨.ok (.line (CommandWords.join values)), events⟩

end CommandWords.Request
