import CommandWords.Json.Writer

/-!
# Responses

The answer to a request and the ways to write it: as a JSON object on one line or indented, or as
the plain items, each ended by a newline or by a null character.
-/

namespace CommandWords

/-- How a response is written. -/
inductive Format where
  | json
  /-- Each item ends with a newline. -/
  | lines
  /-- Each item ends with a null character. -/
  | nul
deriving DecidableEq, Repr

/-- The name of a format. -/
def Format.name : Format → Text
  | .json => "json".toList
  | .lines => "lines".toList
  | .nul => "nul".toList

/-- The format with a given name. -/
def Format.named? (name : Text) : Option Format :=
  if name = Format.json.name then some .json
  else if name = Format.lines.name then some .lines
  else if name = Format.nul.name then some .nul
  else none

/-- The answer to a request. -/
inductive Response where
  /-- The words of a line and, if asked for, the text behind each. -/
  | words (tokens : List Text) (spans : Option (List Text))
  | escaped (value : Text)
  | line (value : Text)
deriving DecidableEq, Repr

namespace Response

/-- The items that are written in the plain formats. -/
def items : Response → List Text
  | .words tokens _ => tokens
  | .escaped value => [value]
  | .line value => [value]

/-- A list of texts as a JSON array. -/
def textArray (texts : List Text) : Json := .array (texts.map .string)

/-- A response as a JSON object. -/
def toJson : Response → Json
  | .words tokens none => .object [("tokens".toList, textArray tokens)]
  | .words tokens (some spans) =>
    .object [("tokens".toList, textArray tokens), ("spans".toList, textArray spans)]
  | .escaped value => .object [("escaped".toList, .string value)]
  | .line value => .object [("line".toList, .string value)]

/-- The items of a response, each followed by a terminator. -/
def terminated (response : Response) (terminator : Char) : Text :=
  response.items.flatMap (· ++ [terminator])

/-- The text of a response. `pretty` asks for indented JSON. -/
def render (response : Response) : Format → (pretty : Bool) → Text
  | .json, true => response.toJson.indented 0 ++ ['\n']
  | .json, false => response.toJson.compact ++ ['\n']
  | .lines, _ => response.terminated '\n'
  | .nul, _ => response.terminated '\x00'

end Response

end CommandWords
