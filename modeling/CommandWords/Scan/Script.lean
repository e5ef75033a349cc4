import CommandWords.Scan.Basic

/-!
# Scripted matches

A finder that answers from a list of ranges fixed beforehand, one for each call, whatever the
text is.
-/

namespace CommandWords

/-- Answers the `n`-th call with the `n`-th entry: a range of bytes, or no match. Calls past the
end of the script find nothing. The state and the value of a match are the number of the call. -/
def findScripted (script : List (Option (Nat × Nat))) : Finder Nat Nat := fun n _ =>
  (script[n]?.join.map fun (start, stop) => ⟨start, stop, n⟩, n + 1)

end CommandWords
