import CommandWords.Json.Reader

/-!
# The grammar of JSON

What a JSON text is, said of whole texts and not of how they are read. Each relation holds of a text
and of what it stands for: `CharWritten` and `StringWritten` of characters and strings,
`NumeralWritten` and `NumberWritten` of numbers, `Written` of values in which no more than a given
number of arrays and objects are open at once, and `IsDocument` of a value with white space around
it. A character can be written in many ways; by number it is written as its UTF-16 units.
-/

namespace CommandWords.Json

/-- A text of white space only. -/
def IsSpaces (s : Text) : Prop := ∀ c ∈ s, isSpace c = true

/-! ## Strings -/

/-- The characters that stand behind a backslash for a character, each with that character. -/
def shortEscapes : List (Char × Char) := [
  ('"', '"'), ('\\', '\\'), ('/', '/'), ('b', '\x08'), ('f', '\x0c'), ('n', '\n'), ('r', '\r'),
  ('t', '\t')]

/-- The UTF-16 units of a character. -/
def units (c : Char) : List Nat :=
  if c.toNat < 0x10000 then [c.toNat]
  else [0xD800 + (c.toNat - 0x10000) / 0x400, 0xDC00 + (c.toNat - 0x10000) % 0x400]

/-- Four hexadecimal digits and the unit they stand for. -/
inductive UnitWritten : Text → Nat → Prop
  | digits {a b c d : Char} {w x y z : Nat} (ha : hexValue? a = some w) (hb : hexValue? b = some x)
    (hc : hexValue? c = some y) (hd : hexValue? d = some z) :
    UnitWritten [a, b, c, d] (((w * 16 + x) * 16 + y) * 16 + z)

/-- What stands behind a backslash for a character. -/
inductive EscapeWritten : Text → Char → Prop
  | short {c d : Char} (h : (c, d) ∈ shortEscapes) : EscapeWritten [c] d
  | unit {c : Char} {text : Text} {unit : Nat} (hc : units c = [unit])
    (h : UnitWritten text unit) : EscapeWritten ('u' :: text) c
  | pair {c : Char} {first second : Text} {high low : Nat} (hc : units c = [high, low])
    (hh : UnitWritten first high) (hl : UnitWritten second low) :
    EscapeWritten ('u' :: first ++ '\\' :: 'u' :: second) c

/-- A character of a string. -/
inductive CharWritten : Text → Char → Prop
  | plain {c : Char} (not_quote : c ≠ '"') (not_backslash : c ≠ '\\') (h : 0x20 ≤ c.toNat) :
    CharWritten [c] c
  | escaped {text : Text} {c : Char} (h : EscapeWritten text c) : CharWritten ('\\' :: text) c

/-- The characters of a string. -/
inductive CharsWritten : Text → Text → Prop
  | nil : CharsWritten [] []
  | cons {text rest : Text} {c : Char} {cs : Text} (h : CharWritten text c)
    (hs : CharsWritten rest cs) : CharsWritten (text ++ rest) (c :: cs)

/-- A string between its quotes. -/
def StringWritten (text value : Text) : Prop :=
  ∃ body, text = '"' :: (body ++ ['"']) ∧ CharsWritten body value

/-! ## Numbers -/

/-- Digits, at least one. -/
def IsDigits (s : Text) : Prop := s ≠ [] ∧ ∀ c ∈ s, c.isDigit = true

/-- The digits of a whole part, which start with zero only if that is all. -/
def IsWhole (s : Text) : Prop := IsDigits s ∧ (s.head? = some '0' → s = ['0'])

inductive FractionWritten : Text → Option Text → Prop
  | absent : FractionWritten [] none
  | present {digits : Text} (h : IsDigits digits) : FractionWritten ('.' :: digits) (some digits)

/-- The sign of an exponent, and whether the exponent is negative. -/
inductive SignWritten : Text → Bool → Prop
  | absent : SignWritten [] false
  | plus : SignWritten ['+'] false
  | minus : SignWritten ['-'] true

inductive ExponentWritten : Text → Option (Bool × Text) → Prop
  | absent : ExponentWritten [] none
  | present {e : Char} {sign digits : Text} {negative : Bool} (he : e = 'e' ∨ e = 'E')
    (hs : SignWritten sign negative) (h : IsDigits digits) :
    ExponentWritten (e :: (sign ++ digits)) (some (negative, digits))

inductive NumeralWritten : Text → Numeral → Prop
  | parts {n : Numeral} {fraction exponent : Text} (hw : IsWhole n.whole)
    (hf : FractionWritten fraction n.fraction) (he : ExponentWritten exponent n.exponent) :
    NumeralWritten ((if n.negative then ['-'] else []) ++ n.whole ++ fraction ++ exponent) n

/-- A numeral that is not too large, and its number. -/
def NumberWritten (text : Text) (value : Number) : Prop :=
  ∃ numeral, NumeralWritten text numeral ∧ numeral.number? = some value

/-! ## Values -/

/-- What stands before an element of a list: white space, and a comma unless it is the first one. -/
inductive Lead : Bool → Text → Prop
  | first {spaces : Text} (h : IsSpaces spaces) : Lead true spaces
  | comma {before behind : Text} (hb : IsSpaces before) (ha : IsSpaces behind) :
    Lead false (before ++ ',' :: behind)

/-- Elements with commas between and white space around, from the `first` element on or behind
another one. -/
inductive Listed {α : Type} (W : Text → α → Prop) : Bool → Text → List α → Prop
  | nil {first : Bool} {spaces : Text} (h : IsSpaces spaces) : Listed W first spaces []
  | cons {first : Bool} {lead text rest : Text} {x : α} {xs : List α} (hl : Lead first lead)
    (h : W text x) (hs : Listed W false rest xs) : Listed W first (lead ++ text ++ rest) (x :: xs)

/-- A key, a colon and a value with white space between. -/
def MemberWritten (W : Text → Json → Prop) (text : Text) (member : Text × Json) : Prop :=
  ∃ key behind before value, text = key ++ behind ++ ':' :: (before ++ value) ∧
    StringWritten key member.1 ∧ IsSpaces behind ∧ IsSpaces before ∧ W value member.2

/-- A value with at most `depth` arrays and objects open at once. -/
def Written (depth : Nat) (text : Text) (value : Json) : Prop :=
  match value, depth with
  | .null, _ => text = "null".toList
  | .bool true, _ => text = "true".toList
  | .bool false, _ => text = "false".toList
  | .number value, _ => NumberWritten text value
  | .string value, _ => StringWritten text value
  | .array _, 0 => False
  | .array items, depth + 1 =>
    ∃ body, text = '[' :: (body ++ [']']) ∧ Listed (Written depth) true body items
  | .object _, 0 => False
  | .object members, depth + 1 =>
    ∃ body, text = '\x7b' :: (body ++ ['\x7d']) ∧
      Listed (MemberWritten (Written depth)) true body members

/-- One value with white space around it. -/
def IsDocument (text : Text) (value : Json) : Prop :=
  ∃ before body behind, text = before ++ body ++ behind ∧ IsSpaces before ∧
    Written depthLimit body value ∧ IsSpaces behind

end CommandWords.Json
