import CommandWords.Number.Exact
import CommandWords.Toml.Lexical
import CommandWords.Toml.Basic

/-!
# TOML values without quotes or brackets

Truth values, integers, floats, dates and times are recognised from their whole text. An integer
may have up to 128 bits, and a float that is too large for double precision is refused.
-/

namespace CommandWords.Toml

/-! ## Numbers -/

/-- The digits of a sequence in which a single underscore may stand between two digits. -/
def digits? (isDigit : Char → Bool) : Text → Option Text
  | [] => none
  | c :: rest =>
    if isDigit c then
      match rest with
      | [] => some [c]
      | '_' :: rest => (digits? isDigit rest).map (c :: ·)
      | rest => (digits? isDigit rest).map (c :: ·)
    else none

/-- Whether a character is a digit of a base up to sixteen. -/
def isBaseDigit (base : Nat) (c : Char) : Bool :=
  match hexValue? c with
  | some value => value < base
  | none => false

/-- A text without its sign, and whether that is a minus. -/
def splitSign : Text → Bool × Text
  | '-' :: rest => (true, rest)
  | '+' :: rest => (false, rest)
  | s => (false, s)

/-- The digits of a decimal whole number, which has no leading zeros. -/
def wholeDigits? (s : Text) : Option Text :=
  (digits? Char.isDigit s).bind fun digits =>
    if 1 < digits.length ∧ digits.head? = some '0' then none else some digits

/-- A number within 128 bits: signed if it is negative, unsigned if not. -/
def bounded? (negative : Bool) (n : Nat) : Option Int :=
  if negative then if n ≤ Nat.pow 2 127 then some (-n) else none
  else if n < Nat.pow 2 128 then some n else none

/-- The integer with a given text. -/
def integer? (s : Text) : Option Int :=
  let unsigned := fun base digits =>
    (digits? (isBaseDigit base) digits).bind fun digits => bounded? false (baseValue base digits)
  match s with
  | '0' :: 'x' :: digits => unsigned 16 digits
  | '0' :: 'o' :: digits => unsigned 8 digits
  | '0' :: 'b' :: digits => unsigned 2 digits
  | s =>
    let (negative, rest) := splitSign s
    (wholeDigits? rest).bind fun digits => bounded? negative (baseValue 10 digits)

/-- Whether a character starts the exponent of a float. -/
def isExponentMark (c : Char) : Bool := c == 'e' || c == 'E'

/-- The value of the text behind the mark of an exponent. -/
def exponent? (s : Text) : Option Int :=
  let (negative, rest) := splitSign s
  (digits? Char.isDigit rest).map fun digits =>
    if negative then -(baseValue 10 digits : Int) else baseValue 10 digits

/-- The digits of a float's fraction, none if it has no point. -/
def fraction? : Text → Option Text
  | [] => some []
  | '.' :: rest => digits? Char.isDigit rest
  | _ => none

/-- The decimal of a text that has a point or an exponent. -/
def decimal? (s : Text) : Option Decimal := do
  let mantissa := s.takeWhile (!isExponentMark ·)
  let scale := s.dropWhile (!isExponentMark ·)
  let point := mantissa.dropWhile (· != '.')
  if point.isEmpty ∧ scale.isEmpty then none
  let whole ← wholeDigits? (mantissa.takeWhile (· != '.'))
  let fraction ← fraction? point
  let exponent ← if scale.isEmpty then some 0 else exponent? scale.tail
  return ⟨baseValue 10 (whole ++ fraction), exponent - fraction.length⟩

/-- The float with a given text. -/
def float? (s : Text) : Option FloatValue :=
  let (negative, rest) := splitSign s
  if rest = "inf".toList then some (.infinite negative)
  else if rest = "nan".toList then some .notANumber
  else (decimal? rest).bind fun d => (Binary64.ofDecimalExact? d).map (.finite negative)

/-! ## Dates and times -/

/-- The number that exactly `count` decimal digits stand for. -/
def fixed? (count : Nat) (s : Text) : Option (Nat × Text) :=
  let digits := s.take count
  if digits.length = count ∧ digits.all Char.isDigit then
    some (baseValue 10 digits, s.drop count)
  else none

/-- The text behind an expected character. -/
def expect? (c : Char) : Text → Option Text
  | [] => none
  | d :: rest => if c = d then some rest else none

/-- Whether a year has a 29th of February. -/
def isLeapYear (year : Nat) : Bool :=
  year % 4 == 0 && (year % 100 != 0 || year % 400 == 0)

/-- The number of days of a month. -/
def daysIn (year month : Nat) : Nat :=
  if month = 2 then if isLeapYear year then 29 else 28
  else if month = 4 ∨ month = 6 ∨ month = 9 ∨ month = 11 then 30
  else 31

/-- The date at the head of a text. -/
def readDate? (s : Text) : Option (Date × Text) := do
  let (year, rest) ← fixed? 4 s
  let (month, rest) ← fixed? 2 (← expect? '-' rest)
  let (day, rest) ← fixed? 2 (← expect? '-' rest)
  if 1 ≤ month ∧ month ≤ 12 ∧ 1 ≤ day ∧ day ≤ daysIn year month then
    return (⟨year, month, day⟩, rest)
  else none

/-- The seconds at the head of a text with their fraction; without them, the full minute. -/
def readSeconds? (s : Text) : Option (Nat × Text × Text) :=
  match s with
  | ':' :: rest => do
    let (second, rest) ← fixed? 2 rest
    match rest with
    | '.' :: rest =>
      let digits := rest.takeWhile Char.isDigit
      if digits.isEmpty then none else return (second, digits, rest.dropWhile Char.isDigit)
    | rest => return (second, [], rest)
  | s => some (0, [], s)

/-- The time at the head of a text. Second 60 is a leap second. -/
def readTime? (s : Text) : Option (Time × Text) := do
  let (hour, rest) ← fixed? 2 s
  let (minute, rest) ← fixed? 2 (← expect? ':' rest)
  let (second, fraction, rest) ← readSeconds? rest
  if hour ≤ 23 ∧ minute ≤ 59 ∧ second ≤ 60 then
    return (⟨hour, minute, second, fraction⟩, rest)
  else none

/-- The offset from universal time, in minutes, that is a whole text. -/
def offset? : Text → Option Int
  | ['Z'] => some 0
  | ['z'] => some 0
  | [] => none
  | sign :: rest => do
    if sign ≠ '+' ∧ sign ≠ '-' then none
    let (hour, rest) ← fixed? 2 rest
    let (minute, rest) ← fixed? 2 (← expect? ':' rest)
    if rest.isEmpty ∧ hour ≤ 23 ∧ minute ≤ 59 then
      let minutes : Int := hour * 60 + minute
      return if sign = '-' then -minutes else minutes
    else none

/-- Whether a character separates a date from a time. -/
def isDateSeparator (c : Char) : Bool := c == 'T' || c == 't' || c == ' '

/-- The date, time or both with a given text. -/
def moment? (s : Text) : Option Moment :=
  match readDate? s with
  | none =>
    match readTime? s with
    | some (time, []) => some (.time time)
    | _ => none
  | some (date, []) => some (.date date)
  | some (date, c :: rest) => do
    if !isDateSeparator c then none
    let (time, rest) ← readTime? rest
    if rest.isEmpty then return .dateTime date time none
    else return .dateTime date time (some (← offset? rest))

/-! ## Values -/

/-- Whether a character can stand in a value without quotes or brackets. -/
def isScalarChar (c : Char) : Bool :=
  !(isSpace c || c == '\n' || c == '\r' || c == ',' || c == '#' || c == '=' || c == '"' ||
    c == '\x27' || c == '[' || c == ']' || c == '\x7b' || c == '\x7d')

/-- The text of the value without quotes or brackets at the head of a text, and what follows it.
A space belongs to it between a date and a digit. -/
def scalarText (s : Text) : Text × Text :=
  let word := s.takeWhile isScalarChar
  let behind := s.dropWhile isScalarChar
  match readDate? word, behind with
  | some (_, []), ' ' :: c :: rest =>
    if c.isDigit then
      (word ++ ' ' :: (c :: rest).takeWhile isScalarChar, (c :: rest).dropWhile isScalarChar)
    else (word, behind)
  | _, _ => (word, behind)

/-- The value with a given text. -/
def scalar? (s : Text) : Option Value :=
  if s = "true".toList then some (.boolean true)
  else if s = "false".toList then some (.boolean false)
  else ((integer? s).map .integer).or (((float? s).map .float).or ((moment? s).map .moment))

end CommandWords.Toml
