import CommandWords.Text.Basic

/-!
# Requests

What the program can be asked for: to split a line, to escape a value, or to join values.
-/

namespace CommandWords

/-- A request. -/
inductive Request where
  /-- Split a line into words; with `raw`, also report the text behind each word. -/
  | split (line : Text) (raw : Bool)
  /-- Spell a value as one word. -/
  | escape (value : Text)
  /-- Spell values as a line. -/
  | join (values : List Text)
deriving DecidableEq, Repr

namespace Request

/-- The kinds of requests. -/
inductive Kind where
  | split
  | escape
  | join
deriving DecidableEq, Repr

/-- The name of a kind. -/
def Kind.name : Kind → Text
  | .split => "split".toList
  | .escape => "escape".toList
  | .join => "join".toList

/-- The kind with a given name. -/
def Kind.named? (name : Text) : Option Kind :=
  if name = Kind.split.name then some .split
  else if name = Kind.escape.name then some .escape
  else if name = Kind.join.name then some .join
  else none

/-- The kind of a request. -/
def kind : Request → Kind
  | .split .. => .split
  | .escape .. => .escape
  | .join .. => .join

theorem Kind.named?_eq_some_iff {name : Text} {kind : Kind} :
    Kind.named? name = some kind ↔ name = kind.name := by
  constructor
  · intro h
    unfold Kind.named? at h
    split at h
    · simp_all
    · split at h
      · simp_all
      · split at h <;> simp_all
  · rintro rfl
    cases kind <;> rfl

end Request

end CommandWords
