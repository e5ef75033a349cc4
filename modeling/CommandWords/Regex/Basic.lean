import CommandWords.Scan.Basic

/-!
# Regular expressions

Expressions over ranges of characters, with groups that remember what they matched, and anchors.
Only a range of characters is repeated, so that matching recurses on the expression and, inside a
repetition, on the text.

Matching takes the first way to match in order of preference (`Regex.run`): a repetition prefers
more characters, and an alternative prefers its left side. `Regex.find` takes the leftmost
position at which the expression matches.
-/

namespace CommandWords

/-- The characters from `lo` to `hi`, both included. -/
structure CharRange where
  lo : Char
  hi : Char
deriving DecidableEq, Repr

/-- Whether a character lies in a range. -/
def CharRange.contains (range : CharRange) (c : Char) : Bool := range.lo ≤ c && c ≤ range.hi

/-- A regular expression. -/
inductive Regex where
  /-- Matches without taking anything. -/
  | empty
  /-- One character of a range. -/
  | one (range : CharRange)
  /-- As many characters of a range as possible, maybe none. -/
  | many (range : CharRange)
  | seq (first second : Regex)
  /-- The left side, or else the right side. -/
  | alt (left right : Regex)
  /-- Remembers the text matched inside under a number. -/
  | group (number : Nat) (inner : Regex)
  | startOfText
  | endOfText
  /-- The end of the text or the place before a newline. -/
  | endOfLine
deriving DecidableEq, Repr

namespace Regex

/-- One character of a range or more. -/
def oneOrMore (range : CharRange) : Regex := .seq (.one range) (.many range)

/-- The expression, or else nothing. -/
def optional (r : Regex) : Regex := .alt r .empty

/-- The characters of a text, one after the other. -/
def literal : Text → Regex
  | [] => .empty
  | [c] => .one ⟨c, c⟩
  | c :: cs => .seq (.one ⟨c, c⟩) (literal cs)

/-- The number of groups of an expression whose groups are numbered from 1 on. -/
def groupCount : Regex → Nat
  | .seq r s | .alt r s => max r.groupCount s.groupCount
  | .group number inner => max number inner.groupCount
  | _ => 0

/-- What the groups have matched: the text of each group, by its number, that took part. -/
abbrev Groups := List (Nat × Text)

/-- Takes characters of a range and goes on with `next`, preferring to take more. -/
def runMany {α : Type} (range : CharRange) (next : Text → Option α) : Text → Option α
  | [] => next []
  | c :: cs =>
    if range.contains c then (runMany range next cs).or (next (c :: cs)) else next (c :: cs)

/-- Matches at the head of `s` and goes on with `next` on what follows: the first way in order of
preference for which `next` succeeds. `whole` is the number of characters of the searched text. -/
def run {α : Type} (whole : Nat) :
    Regex → Text → Groups → (Text → Groups → Option α) → Option α
  | .empty, s, groups, next => next s groups
  | .one range, s, groups, next =>
    match s with
    | [] => none
    | c :: cs => if range.contains c then next cs groups else none
  | .many range, s, groups, next => runMany range (next · groups) s
  | .seq first second, s, groups, next =>
    first.run whole s groups fun rest groups' => second.run whole rest groups' next
  | .alt left right, s, groups, next =>
    (left.run whole s groups next).or (right.run whole s groups next)
  | .group number inner, s, groups, next =>
    inner.run whole s groups fun rest groups' =>
      next rest ((number, s.take (s.length - rest.length)) :: groups')
  | .startOfText, s, groups, next => if s.length = whole then next s groups else none
  | .endOfText, s, groups, next => if s.isEmpty then next s groups else none
  | .endOfLine, s, groups, next => if s.isEmpty || s.head? == some '\n' then next s groups else none

/-- The leftmost match in what is left of a searched text behind its first `skipped` bytes. -/
def search (r : Regex) (whole skipped : Nat) (s : Text) : Option (Found Groups) :=
  match r.run whole s [] fun rest groups => some (rest, groups) with
  | some (rest, groups) => some ⟨skipped, skipped + (s.byteSize - rest.byteSize), groups⟩
  | none =>
    match s with
    | [] => none
    | c :: cs => search r whole (skipped + c.utf8Size) cs

/-- The leftmost match in a text, with the texts of the groups in the order of their numbers; none
for a group that took no part. -/
def find (r : Regex) (s : Text) : Option (Found (List (Option Text))) :=
  (r.search s.length 0 s).map fun found =>
    { found with value := (List.range r.groupCount).map fun i => found.value.lookup (i + 1) }

end Regex

end CommandWords
