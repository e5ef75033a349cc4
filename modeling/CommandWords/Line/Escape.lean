import CommandWords.Text.Basic

/-!
# Spelling values on a command line

`escape` spells one value as a word of a command line, and `join` spells several values as a
line. A newline stands between single quotes, since a backslash before a newline does not keep it,
other characters that mean nothing to a shell stand bare, and every other character has a backslash
before it. The empty value is an empty pair of quotes.
-/

namespace CommandWords

/-- Whether a character never needs a backslash. -/
def isSafe (c : Char) : Bool :=
  c.isAlphanum || c == '_' || c == '-' || c == '.' || c == ',' || c == ':' || c == '/' ||
    c == '@' || c == '\n'

/-- The spelling of one character of a value. -/
def escapeChar (c : Char) : Text :=
  if c = '\n' then ['\x27', '\n', '\x27'] else if isSafe c then [c] else ['\\', c]

/-- The spelling of a value as one word of a command line. -/
def escape (value : Text) : Text :=
  if value = [] then ['\x27', '\x27'] else value.flatMap escapeChar

/-- The spelling of values as a command line: their words with a space between. -/
def join (values : List Text) : Text := [' '].intercalate (values.map escape)

end CommandWords
