import CommandWords.Json.Number

/-!
# JSON values

Objects keep their members in the order of the text, repeated keys included.
-/

namespace CommandWords

/-- A JSON value. -/
inductive Json where
  | null
  | bool (value : Bool)
  | number (value : Json.Number)
  | string (value : Text)
  | array (items : List Json)
  | object (members : List (Text × Json))
deriving Repr

end CommandWords
