import CommandWords.Line.Step

/-!
# Splitting a command line into words

`splitReport` scans a line step by step. The steps of a word are put together until one of them is
followed by white space or the end of the line, or is an empty pair of quotes; then the word is
finished, and the part of the line since the last finished word is its span. White space behind
the last word is one more span. A quote that is never closed ends the splitting; the spans up to
there are still reported. `split` gives the words alone.
-/

namespace CommandWords

/-- A quote that is never closed, with the byte of the line it stands at. -/
structure UnmatchedQuote where
  quote : Quote
  offset : Nat
deriving DecidableEq, Repr

/-- The text of the error. -/
def UnmatchedQuote.message (e : UnmatchedQuote) : Text :=
  "Unmatched quote: ".toList ++ [e.quote.char] ++ " at byte ".toList ++ Nat.toDigits 10 e.offset

/-- How far the splitting of a line has come. -/
structure Splitting where
  /-- The finished words. -/
  words : List Text
  /-- The word being put together. -/
  field : Text
  /-- The byte of the line behind the last finished word. -/
  spanStart : Nat
  /-- The byte of the line behind the last step. -/
  consumed : Nat
  /-- The parts of the line behind the finished words. -/
  spans : List Text
  /-- The steps met so far. -/
  steps : List StepMatch
deriving Repr

namespace Splitting

/-- Nothing has been read. -/
def start : Splitting := ⟨[], [], 0, 0, [], []⟩

/-- The part of the line from the last finished word up to byte `stop`. -/
def span (state : Splitting) (line : Text) (stop : Nat) : Text :=
  (line.slice? state.spanStart stop).getD []

/-- Takes one step of the line: adds its text to the word and finishes the word if the step is
separated from the next one or is an empty pair of quotes. -/
def step (line : Text) : Handler Splitting StepMatch UnmatchedQuote := fun state raw found =>
  let state' :=
    { state with consumed := state.consumed + raw.byteSize, steps := state.steps ++ [found] }
  match found.step.value with
  | .error quote => (.error ⟨quote, state.consumed + found.offset⟩, state')
  | .ok value =>
    let field := state.field ++ value
    if found.separated || found.step.isEmptyQuotes then
      (.ok [], { state' with
        words := state.words ++ [field]
        field := []
        spanStart := state'.consumed
        spans := state.spans ++ [state.span line state'.consumed] })
    else (.ok [], { state' with field })

/-- Ends the splitting: a word still open is finished, and what follows the last word is the last
span. -/
def finish (line : Text) (state : Splitting) : Splitting :=
  if state.field ≠ [] then
    { state with
      words := state.words ++ [state.field]
      field := []
      spans := state.spans ++ [state.span line line.byteSize] }
  else if state.spanStart < line.byteSize then
    { state with spans := state.spans ++ [state.span line line.byteSize] }
  else state

end Splitting

/-- All that the splitting of a line shows. -/
structure SplitReport where
  words : Except UnmatchedQuote (List Text)
  /-- The parts of the line behind the words, up to an unmatched quote. -/
  spans : List Text
  /-- The steps that were read, an unmatched quote included. -/
  steps : List StepMatch

/-- Splits a line into words, and reports the spans and the steps they were read from. -/
def splitReport (line : Text) : SplitReport :=
  let scanned := scan (.ofFunction findStep) (Splitting.step line) () .start line
  match scanned.result with
  | .error e => ⟨.error e, scanned.handler.spans, scanned.handler.steps⟩
  | .ok _ =>
    let state := scanned.handler.finish line
    ⟨.ok state.words, state.spans, state.steps⟩

/-- Splits a line into words. -/
def split (line : Text) : Except UnmatchedQuote (List Text) := (splitReport line).words

end CommandWords
