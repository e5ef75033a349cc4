import CommandWords.Json.Basic

/-!
# Writing JSON

A value is written compactly, without white space, or indented by two spaces a level, each item
and member on a line of its own. In strings only the quote, the backslash and the control
characters below U+0020 are escaped.
-/

namespace CommandWords.Json

/-- The digit for a value below sixteen, letters in lower case. -/
def hexDigit (n : Nat) : Char := Nat.digitChar n

/-- A character as it is written in a string. -/
def writeChar (c : Char) : Text :=
  if c = '"' then ['\\', '"']
  else if c = '\\' then ['\\', '\\']
  else if c = '\x08' then ['\\', 'b']
  else if c = '\x0c' then ['\\', 'f']
  else if c = '\n' then ['\\', 'n']
  else if c = '\r' then ['\\', 'r']
  else if c = '\t' then ['\\', 't']
  else if c.toNat < 0x20 then
    ['\\', 'u', '0', '0', hexDigit (c.toNat / 16), hexDigit (c.toNat % 16)]
  else [c]

/-- A text as a JSON string. -/
def writeString (s : Text) : Text := '"' :: s.flatMap writeChar ++ ['"']

/-- A line break with the indentation of a level. -/
def newLine (level : Nat) : Text := '\n' :: List.replicate (2 * level) ' '

mutual

/-- The compact text of a value. -/
def compact : Json → Text
  | .null => "null".toList
  | .bool true => "true".toList
  | .bool false => "false".toList
  | .number value => value.text
  | .string value => writeString value
  | .array items => '[' :: compactItems items ++ [']']
  | .object members => '\x7b' :: compactMembers members ++ ['\x7d']

/-- The compact texts of items, with commas between. -/
def compactItems : List Json → Text
  | [] => []
  | [item] => item.compact
  | item :: items => item.compact ++ ',' :: compactItems items

/-- The compact texts of members, with commas between. -/
def compactMembers : List (Text × Json) → Text
  | [] => []
  | [(key, value)] => writeString key ++ ':' :: value.compact
  | (key, value) :: members =>
    writeString key ++ ':' :: value.compact ++ ',' :: compactMembers members

end

mutual

/-- The indented text of a value that stands at a level. -/
def indented (level : Nat) : Json → Text
  | .array [] => ['[', ']']
  | .object [] => ['\x7b', '\x7d']
  | .array (item :: items) =>
    '[' :: indentedItems (level + 1) (item :: items) ++ newLine level ++ [']']
  | .object (member :: members) =>
    '\x7b' :: indentedMembers (level + 1) (member :: members) ++ newLine level ++ ['\x7d']
  | value => value.compact

/-- The indented texts of items, each on a line of its own, with commas between. -/
def indentedItems (level : Nat) : List Json → Text
  | [] => []
  | [item] => newLine level ++ indented level item
  | item :: items => newLine level ++ indented level item ++ ',' :: indentedItems level items

/-- The indented texts of members, each on a line of its own, with commas between. -/
def indentedMembers (level : Nat) : List (Text × Json) → Text
  | [] => []
  | [(key, value)] => newLine level ++ writeString key ++ ':' :: ' ' :: indented level value
  | (key, value) :: members =>
    newLine level ++ writeString key ++ ':' :: ' ' :: indented level value ++
      ',' :: indentedMembers level members

end

end CommandWords.Json
