import CommandWords.Json.Basic
import CommandWords.Request.Basic
import CommandWords.Text.Quoted

/-!
# JSON values that are no request

A text can be JSON as far as it has been read and still be no request. `Mismatch` lists the
causes and `Mismatch.message` words them.
-/

namespace CommandWords.Request

/-- What a value was expected to be. -/
inductive Expected where
  | request
  /-- The name of a kind of request. -/
  | kindName
  | string
  | boolean
  | sequence
deriving DecidableEq, Repr

/-- Why a JSON value is no request. -/
inductive Mismatch where
  | wrongType (found : Json) (expected : Expected)
  | unknownKind (name : Text)
  | duplicateField (name : Text)
  | missingField (name : Text)
  /-- A request in an array ends before its first field. -/
  | tooFew (kind : Kind)
  /-- A request in an array has more items behind its name than fields. -/
  | tooMany (kind : Kind) (count : Nat)
deriving Repr

/-- The words for what was expected. -/
def Expected.words : Expected → Text
  | .request => "internally tagged enum Request".toList
  | .kindName => "variant identifier".toList
  | .string => "a string".toList
  | .boolean => "a boolean".toList
  | .sequence => "a sequence".toList

/-- The words for a value that was found. -/
def describe : Json → Text
  | .null => "null".toList
  | .bool true => "boolean `true`".toList
  | .bool false => "boolean `false`".toList
  | .number (.integer value) =>
    "integer `".toList ++ (Json.Number.integer value).text ++ "`".toList
  | .number (.float negative magnitude) =>
    "floating point `".toList ++ (Json.Number.float negative magnitude).text ++ "`".toList
  | .string value => "string ".toList ++ quotedText value
  | .array _ => "sequence".toList
  | .object _ => "map".toList

/-- The number of fields of a kind, in words. -/
def Kind.fieldCount : Kind → Text
  | .split => "2 elements".toList
  | .escape => "1 element".toList
  | .join => "1 element".toList

/-- The full name of a kind. -/
def Kind.fullName : Kind → Text
  | .split => "Request::Split".toList
  | .escape => "Request::Escape".toList
  | .join => "Request::Join".toList

/-- The text of a mismatch. -/
def Mismatch.message : Mismatch → Text
  | .wrongType found expected =>
    "invalid type: ".toList ++ describe found ++ ", expected ".toList ++ expected.words
  | .unknownKind name =>
    "unknown variant `".toList ++ name ++
      "`, expected one of `split`, `escape`, `join`".toList
  | .duplicateField name => "duplicate field `".toList ++ name ++ "`".toList
  | .missingField name => "missing field `".toList ++ name ++ "`".toList
  | .tooFew kind =>
    "invalid length 0, expected struct variant ".toList ++ kind.fullName ++ " with ".toList ++
      kind.fieldCount
  | .tooMany kind count =>
    "invalid length ".toList ++ Nat.toDigits 10 count ++ ", expected ".toList ++ kind.fieldCount ++
      " in sequence".toList

end CommandWords.Request
