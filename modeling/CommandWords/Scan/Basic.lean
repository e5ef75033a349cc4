import CommandWords.Text.Basic

/-!
# Scanning a text match by match

A finder looks for its first match in a text and may keep state from one call to the next. A
handler answers each match with the text that replaces it, or fails; it, too, may keep state, and
what it kept when it failed is not lost. `scan` walks a text with both: the text between matches
is copied, each match is replaced, and the search goes on behind the match.

A match that ends where the search began would never advance, so it ends the scan as no match
does; a range that does not fit the text is no match either.
-/

namespace CommandWords

/-- A match, as a range of bytes of the searched text, with what the finder tells about it. -/
structure Found (μ : Type) where
  start : Nat
  /-- The first byte behind the match. -/
  stop : Nat
  value : μ
deriving DecidableEq, Repr

/-- A search for the first match in a text, with state `π` kept between calls. -/
abbrev Finder (π μ : Type) := π → Text → Option (Found μ) × π

/-- An answer to a match, given the matched text: its replacement, or a failure. The state `σ` is
kept in both cases. -/
abbrev Handler (σ μ ε : Type) := σ → Text → μ → Except ε Text × σ

/-- What a scan leaves: its result and the last states of finder and handler. -/
structure Scanned (π σ ε : Type) where
  result : Except ε Text
  finder : π
  handler : σ

variable {π σ μ ε : Type}

/-- A finder that keeps no state. -/
def Finder.ofFunction (find : Text → Option (Found μ)) : Finder Unit μ := fun _ s => (find s, ())

/-- Walks `line` match by match, replacing each match by the handler's answer. The first failure
of the handler ends the walk and is its result. -/
def scan (find : Finder π μ) (handle : Handler σ μ ε) (p : π) (s : σ) (line : Text) :
    Scanned π σ ε :=
  if line = [] then ⟨.ok [], p, s⟩
  else
    match find p line with
    | (none, p') => ⟨.ok line, p', s⟩
    | (some found, p') =>
      if _hs : 0 < found.stop then
        match _hc : line.cut? found.start found.stop with
        | none => ⟨.ok line, p', s⟩
        | some (before, range, after) =>
          match handle s range found.value with
          | (.error e, s') => ⟨.error e, p', s'⟩
          | (.ok replacement, s') =>
            let behind := scan find handle p' s' after
            { behind with result := behind.result.map (before ++ replacement ++ ·) }
      else ⟨.ok line, p', s⟩
termination_by line.length
decreasing_by exact Text.length_lt_of_cut? _hs _hc

end CommandWords
