import CommandWords.Scan.Basic

/-!
# Replacing matches by a template

A template is a text in which every ampersand stands for the matched text. `substitute` is the
handler that answers with a template, fails on one given matched text if asked to, and records the
matches it was called with, the failing one included.
-/

namespace CommandWords

/-- A template with the matched text put in for every ampersand. -/
def expandTemplate (template range : Text) : Text :=
  template.flatMap fun c => if c = '&' then range else [c]

/-- Answers each match with the expanded template; fails, with the matched text, on a match of
`failOn`. The state is the list of the matches so far. -/
def substitute {μ : Type} (template : Text) (failOn : Option Text) :
    Handler (List (Text × μ)) μ Text := fun calls range value =>
  (if failOn = some range then .error range else .ok (expandTemplate template range),
    calls ++ [(range, value)])

end CommandWords
