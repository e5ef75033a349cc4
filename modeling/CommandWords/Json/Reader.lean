import CommandWords.Json.Basic

/-!
# Reading JSON

A strict reader that goes through the text from left to right and stops at the first fault. There
are two faults: the text ends where more is needed, or it holds something else than what is needed.

`readValue` reads a value with a bound on the arrays and objects open at once, on which it
recurses. The items of an array and the members of an object are found by `nextItem` and `nextKey`,
which know only about brackets and commas, so that other readers can go through an array or an
object as well.
-/

namespace CommandWords.Json

/-- What a text that is no JSON value suffers from. -/
inductive Fault where
  /-- The text ends where more is needed. -/
  | truncated
  /-- The text holds something that cannot stand there. -/
  | malformed
deriving DecidableEq, Repr

/-- Whether a character is white space between the parts of a JSON text. -/
def isSpace (c : Char) : Bool := c == ' ' || c == '\t' || c == '\n' || c == '\r'

/-- A text without the white space at its head. -/
def skipSpace (s : Text) : Text := s.dropWhile isSpace

/-! ## Strings -/

/-- The unit that four hexadecimal digits stand for. Fewer than four bytes are too short a text,
whatever they are. -/
def readUnit (s : Text) : Except Fault (Nat × Text) :=
  if s.byteSize < 4 then .error .truncated
  else
    match s with
    | a :: b :: c :: d :: rest =>
      match hexValue? a, hexValue? b, hexValue? c, hexValue? d with
      | some a, some b, some c, some d => .ok (((a * 16 + b) * 16 + c) * 16 + d, rest)
      | _, _, _, _ => .error .malformed
    | _ => .error .malformed

/-- The character that the unit behind `\u` stands for. A unit from D800 to DBFF is the first half
of a character and takes a second one from DC00 to DFFF behind another `\u`; no half stands
alone. -/
def readUnicode (s : Text) : Except Fault (Char × Text) := do
  let (high, rest) ← readUnit s
  if 0xDC00 ≤ high ∧ high ≤ 0xDFFF then throw .malformed
  else if 0xD800 ≤ high ∧ high ≤ 0xDBFF then
    match rest with
    | [] => throw .truncated
    | c :: rest =>
      if c ≠ '\\' then throw .malformed
      else
        match rest with
        | [] => throw .truncated
        | d :: rest =>
          if d ≠ 'u' then throw .malformed
          else
            let (low, rest) ← readUnit rest
            if 0xDC00 ≤ low ∧ low ≤ 0xDFFF then
              return (Char.ofNat (0x10000 + (high - 0xD800) * 0x400 + (low - 0xDC00)), rest)
            else throw .malformed
  else return (Char.ofNat high, rest)

/-- The character that a single character behind a backslash stands for. -/
def shortEscape? (c : Char) : Option Char :=
  if c = '"' ∨ c = '\\' ∨ c = '/' then some c
  else if c = 'b' then some '\x08'
  else if c = 'f' then some '\x0c'
  else if c = 'n' then some '\n'
  else if c = 'r' then some '\r'
  else if c = 't' then some '\t'
  else none

/-- The character that the text behind a backslash stands for. -/
def readEscape : Text → Except Fault (Char × Text)
  | [] => .error .truncated
  | c :: rest =>
    match shortEscape? c with
    | some d => .ok (d, rest)
    | none => if c = 'u' then readUnicode rest else .error .malformed

theorem length_lt_of_readUnit {s rest : Text} {unit : Nat} (h : readUnit s = .ok (unit, rest)) :
    rest.length < s.length := by
  unfold readUnit at h
  split at h
  · simp at h
  · split at h
    · split at h
      · simp only [Except.ok.injEq, Prod.mk.injEq] at h
        obtain ⟨-, rfl⟩ := h
        simp only [List.length_cons]
        omega
      · simp at h
    · simp at h

theorem length_lt_of_readUnicode {s rest : Text} {c : Char} (h : readUnicode s = .ok (c, rest)) :
    rest.length < s.length := by
  unfold readUnicode at h
  cases hu : readUnit s with
  | error e => simp [hu, bind, Except.bind] at h
  | ok p =>
    obtain ⟨high, rest₁⟩ := p
    have h₁ := length_lt_of_readUnit hu
    simp only [hu, bind, Except.bind, throw, throwThe, MonadExceptOf.throw, pure, Except.pure] at h
    split at h
    · simp at h
    · split at h
      · split at h
        · simp at h
        · split at h
          · simp at h
          · split at h
            · simp at h
            · split at h
              · simp at h
              · split at h
                · simp at h
                · rename_i hl
                  have h₂ := length_lt_of_readUnit hl
                  split at h
                  · simp only [Except.ok.injEq, Prod.mk.injEq] at h
                    obtain ⟨-, rfl⟩ := h
                    simp only [List.length_cons] at h₁
                    omega
                  · simp at h
      · simp only [Except.ok.injEq, Prod.mk.injEq] at h
        obtain ⟨-, rfl⟩ := h
        exact h₁

theorem length_lt_of_readEscape {s rest : Text} {c : Char} (h : readEscape s = .ok (c, rest)) :
    rest.length < s.length := by
  cases s with
  | nil => simp [readEscape] at h
  | cons d ds =>
    simp only [readEscape] at h
    split at h
    · obtain ⟨-, rfl⟩ : _ ∧ ds = rest := by simpa using h
      simp
    · split at h
      · have := length_lt_of_readUnicode h
        simp only [List.length_cons]
        omega
      · simp at h

/-- The characters of a string up to its closing quote, and the text behind that quote. -/
def readChars (s : Text) : Except Fault (Text × Text) :=
  match s with
  | [] => .error .truncated
  | c :: rest =>
    if c = '"' then .ok ([], rest)
    else if c = '\\' then
      match _h : readEscape rest with
      | .error e => .error e
      | .ok (d, rest') => (readChars rest').map fun (chars, behind) => (d :: chars, behind)
    else if c.toNat < 0x20 then .error .malformed
    else (readChars rest).map fun (chars, behind) => (c :: chars, behind)
termination_by s.length
decreasing_by
  · have := length_lt_of_readEscape _h
    simp only [List.length_cons]
    omega
  · simp

/-! ## Numbers and words -/

/-- The digits at the head of a text, and what follows them. -/
def readDigits (s : Text) : Text × Text := (s.takeWhile Char.isDigit, s.dropWhile Char.isDigit)

/-- The digits at the head of a text, of which there must be one. -/
def readSomeDigits (s : Text) : Except Fault (Text × Text) :=
  match s with
  | [] => .error .truncated
  | c :: _ => if c.isDigit then .ok (readDigits s) else .error .malformed

/-- The digits of a whole part: a zero that no digit follows, or digits that start with another. -/
def readWhole (s : Text) : Except Fault (Text × Text) := do
  let (digits, rest) ← readSomeDigits s
  if digits.head? = some '0' ∧ 1 < digits.length then throw .malformed
  return (digits, rest)

/-- The digits behind a decimal point, if there is one. -/
def readFraction : Text → Except Fault (Option Text × Text)
  | '.' :: rest => do
    let (digits, rest) ← readSomeDigits rest
    return (some digits, rest)
  | s => .ok (none, s)

/-- Whether the exponent is negative, and its digits, if there is one. -/
def readExponent (s : Text) : Except Fault (Option (Bool × Text) × Text) :=
  match s with
  | [] => .ok (none, [])
  | c :: rest =>
    if c = 'e' ∨ c = 'E' then do
      let (negative, rest) :=
        match rest with
        | '+' :: rest => (false, rest)
        | '-' :: rest => (true, rest)
        | rest => (false, rest)
      let (digits, rest) ← readSomeDigits rest
      return (some (negative, digits), rest)
    else .ok (none, s)

/-- The number at the head of a text. One too large for double precision is malformed. -/
def readNumber (s : Text) : Except Fault (Number × Text) := do
  let (negative, rest) :=
    match s with
    | '-' :: rest => (true, rest)
    | s => (false, s)
  let (whole, rest) ← readWhole rest
  let (fraction, rest) ← readFraction rest
  let (exponent, rest) ← readExponent rest
  match Numeral.number? ⟨negative, whole, fraction, exponent⟩ with
  | some value => return (value, rest)
  | none => throw .malformed

/-- The text behind the expected characters. -/
def readWord : Text → Text → Except Fault Text
  | [], s => .ok s
  | _ :: _, [] => .error .truncated
  | c :: cs, d :: ds => if c = d then readWord cs ds else .error .malformed

/-- The value at the head of a text that starts with neither white space nor a bracket. -/
def readScalar (s : Text) : Except Fault (Json × Text) :=
  match s with
  | [] => .error .truncated
  | c :: rest =>
    if c = 'n' then (readWord "ull".toList rest).map (.null, ·)
    else if c = 't' then (readWord "rue".toList rest).map (.bool true, ·)
    else if c = 'f' then (readWord "alse".toList rest).map (.bool false, ·)
    else if c = '"' then (readChars rest).map fun (chars, behind) => (.string chars, behind)
    else if c = '-' ∨ c.isDigit then
      (readNumber s).map fun (value, behind) => (.number value, behind)
    else .error .malformed

/-! ## Arrays and objects -/

/-- What comes next in an array. -/
inductive NextItem where
  /-- The closing bracket, with the text behind it. -/
  | closed (behind : Text)
  /-- An item, at the head of the text. -/
  | item (rest : Text)

/-- Finds the next item of an array behind the opening bracket (`first`) or behind an item. -/
def nextItem (first : Bool) (s : Text) : Except Fault NextItem :=
  match skipSpace s with
  | [] => .error .truncated
  | c :: rest =>
    if c = ']' then .ok (.closed rest)
    else if first then .ok (.item (c :: rest))
    else if c = ',' then
      match skipSpace rest with
      | [] => .error .truncated
      | d :: rest => if d = ']' then .error .malformed else .ok (.item (d :: rest))
    else .error .malformed

/-- What comes next in an object. -/
inductive NextKey where
  /-- The closing brace, with the text behind it. -/
  | closed (behind : Text)
  /-- A key, with the text behind it. -/
  | key (key rest : Text)

/-- The string at the head of a text as a key. -/
def readKey : Text → Except Fault NextKey
  | [] => .error .truncated
  | c :: rest =>
    if c = '"' then (readChars rest).map fun (key, behind) => .key key behind
    else .error .malformed

/-- Finds the next key of an object behind the opening brace (`first`) or behind a member. -/
def nextKey (first : Bool) (s : Text) : Except Fault NextKey :=
  match skipSpace s with
  | [] => .error .truncated
  | c :: rest =>
    if c = '\x7d' then .ok (.closed rest)
    else if first then readKey (c :: rest)
    else if c = ',' then readKey (skipSpace rest)
    else .error .malformed

/-- The text behind the colon of a member. -/
def readColon (s : Text) : Except Fault Text :=
  match skipSpace s with
  | [] => .error .truncated
  | c :: rest => if c = ':' then .ok rest else .error .malformed

/-- The items of an array behind the opening bracket (`first`) or behind an item, each read by
`read`, which takes at least one character. -/
def readItems (read : Text → Except Fault (Json × Text)) (first : Bool) (s : Text) :
    Except Fault (List Json × Text) :=
  match nextItem first s with
  | .error e => .error e
  | .ok (.closed behind) => .ok ([], behind)
  | .ok (.item rest) =>
    match read rest with
    | .error e => .error e
    | .ok (item, rest) =>
      if rest.length < s.length then
        (readItems read false rest).map fun (items, behind) => (item :: items, behind)
      else .error .malformed
termination_by s.length

/-- The members of an object behind the opening brace (`first`) or behind a member, their values
read by `read`. -/
def readMembers (read : Text → Except Fault (Json × Text)) (first : Bool) (s : Text) :
    Except Fault (List (Text × Json) × Text) :=
  match nextKey first s with
  | .error e => .error e
  | .ok (.closed behind) => .ok ([], behind)
  | .ok (.key key rest) =>
    match readColon rest >>= read with
    | .error e => .error e
    | .ok (value, rest) =>
      if rest.length < s.length then
        (readMembers read false rest).map fun (members, behind) => ((key, value) :: members, behind)
      else .error .malformed
termination_by s.length

/-- The value at the head of a text, behind white space, with at most `depth` arrays and objects
open at once, and the text behind it. -/
def readValue (depth : Nat) (s : Text) : Except Fault (Json × Text) :=
  match skipSpace s with
  | [] => .error .truncated
  | c :: rest =>
    if c = '[' then
      match depth with
      | 0 => .error .malformed
      | depth + 1 =>
        (readItems (readValue depth) true rest).map fun (items, behind) => (.array items, behind)
    else if c = '\x7b' then
      match depth with
      | 0 => .error .malformed
      | depth + 1 =>
        (readMembers (readValue depth) true rest).map fun (members, behind) =>
          (.object members, behind)
    else readScalar (c :: rest)
termination_by structural depth

/-- How many arrays and objects may be open at once. -/
def depthLimit : Nat := 127

/-- Reads a text that is one JSON value with white space around it. -/
def read (s : Text) : Except Fault Json := do
  let (value, behind) ← readValue depthLimit s
  if (skipSpace behind).isEmpty then return value else throw .malformed

end CommandWords.Json
