import CommandWords.Text.Basic
import CommandWords.Text.Printable

/-!
# Quoted text in diagnostics

A text is shown between double quotes and a character between single quotes. The backslash and
the surrounding quote have a backslash before them, the tab, the line ends and the null character
have short names, and any other character that does not show on its own is written by its number.
-/

namespace CommandWords

/-- A character between quotes of the given kind. -/
def quoteChar (quote c : Char) : Text :=
  if c = quote ∨ c = '\\' then ['\\', c]
  else if c = '\t' then ['\\', 't']
  else if c = '\r' then ['\\', 'r']
  else if c = '\n' then ['\\', 'n']
  else if c = '\x00' then ['\\', '0']
  else if isPlain c then [c]
  else '\\' :: 'u' :: '\x7b' :: Nat.toDigits 16 c.toNat ++ ['\x7d']

/-- A text between double quotes. -/
def quotedText (s : Text) : Text := '"' :: s.flatMap (quoteChar '"') ++ ['"']

/-- A character between single quotes. -/
def quotedChar (c : Char) : Text := '\x27' :: quoteChar '\x27' c ++ ['\x27']

end CommandWords
