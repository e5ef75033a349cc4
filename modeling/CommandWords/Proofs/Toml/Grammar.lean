import CommandWords.Toml.Reader

/-!
# The grammar of flat TOML documents

What a document without headers is that gives strings and truth values to simple keys, said of whole
texts and not of how they are read. Each relation holds of a text and of what it stands for:
`EscapeWritten` and `BasicWritten` of the characters of a string on one line, `MultiWritten` of
those of a string on several lines, `StringWritten` of strings in all four forms, `KeyWritten` of
keys, `ScalarWritten` of values, and `DocumentWritten` of documents, whose lines may be blank, have
comments, and end in either way. Every string has a basic form (`exists_basicWritten`).
-/

namespace CommandWords.Toml

/-- A text of spaces and tabs only. -/
def IsSpaces (s : Text) : Prop := ∀ c ∈ s, c = ' ' ∨ c = '\t'

/-- A character that may stand in a comment or a string: no control character but the tab. -/
def IsTextChar (c : Char) : Prop := c = '\t' ∨ 0x20 ≤ c.toNat ∧ c ≠ '\x7f'

/-- The two ways to end a line. -/
inductive IsNewline : Text → Prop
  | lf : IsNewline ['\n']
  | crlf : IsNewline ['\r', '\n']

/-! ## Strings -/

/-- The characters that stand behind a backslash for a character, each with that character. -/
def shortEscapes : List (Char × Char) := [
  ('b', '\x08'), ('t', '\t'), ('n', '\n'), ('f', '\x0c'), ('r', '\r'), ('e', '\x1b'), ('"', '"'),
  ('\\', '\\')]

/-- The characters that stand behind a backslash before the number of a character, each with how
many hexadecimal digits the number has. -/
def numberEscapes : List (Char × Nat) := [('x', 2), ('u', 4), ('U', 8)]

/-- What stands behind a backslash for a character. -/
inductive EscapeWritten : Text → Char → Prop
  | short {c d : Char} (h : (c, d) ∈ shortEscapes) : EscapeWritten [c] d
  | number {mark c : Char} {digits : Text} (h : (mark, digits.length) ∈ numberEscapes)
    (hd : ∀ d ∈ digits, (hexValue? d).isSome) (hc : baseValue 16 digits = c.toNat) :
    EscapeWritten (mark :: digits) c

/-- A character that stands for itself in a basic string. -/
def IsPlainChar (c : Char) : Prop := IsTextChar c ∧ c ≠ '"' ∧ c ≠ '\\'

/-- The characters of a basic string, which may be written with backslashes. -/
inductive BasicWritten : Text → Text → Prop
  | nil : BasicWritten [] []
  | plain {c : Char} {text chars : Text} (hc : IsPlainChar c) (h : BasicWritten text chars) :
    BasicWritten (c :: text) (c :: chars)
  | escaped {c : Char} {escape text chars : Text} (hc : EscapeWritten escape c)
    (h : BasicWritten text chars) : BasicWritten ('\\' :: (escape ++ text)) (c :: chars)

/-- The characters of a literal string, which stand for themselves. -/
def IsLiteral (s : Text) : Prop := ∀ c ∈ s, IsTextChar c ∧ c ≠ '\x27'

/-- A part of a multi-line literal string other than a quote, and what it stands for. -/
inductive LiteralUnit : Text → Text → Text → Prop
  | plain {c : Char} {behind : Text} (hc : IsTextChar c) (hq : c ≠ '\x27') :
    LiteralUnit [c] [c] behind
  | newline {newline behind : Text} (h : IsNewline newline) : LiteralUnit newline newline behind

/-- Spaces, tabs and ends of lines. -/
inductive IsBlankLines : Text → Prop
  | nil : IsBlankLines []
  | space {c : Char} {s : Text} (hc : c = ' ' ∨ c = '\t') (h : IsBlankLines s) :
    IsBlankLines (c :: s)
  | newline {newline s : Text} (hn : IsNewline newline) (h : IsBlankLines s) :
    IsBlankLines (newline ++ s)

/-- A part of a multi-line basic string other than a quote, what it stands for, and what follows. A
backslash at the end of a line stands for nothing, with all the blank text behind it. -/
inductive BasicUnit : Text → Text → Text → Prop
  | plain {c : Char} {behind : Text} (hc : IsPlainChar c) : BasicUnit [c] [c] behind
  | newline {newline behind : Text} (h : IsNewline newline) : BasicUnit newline newline behind
  | escaped {c : Char} {escape behind : Text} (hc : EscapeWritten escape c) :
    BasicUnit ('\\' :: escape) [c] behind
  | continued {spaces newline blanks behind : Text} (hs : IsSpaces spaces)
    (hn : IsNewline newline) (hb : IsBlankLines blanks)
    (ends : ∀ s t, IsBlankLines s → behind = s ++ t → s = []) :
    BasicUnit ('\\' :: (spaces ++ newline ++ blanks)) [] behind

/-- The characters of a multi-line string, from a place on where `room` more quotes may follow. No
three quotes stand in a row. -/
inductive MultiWritten (quote : Char) (W : Text → Text → Text → Prop) : Nat → Text → Text → Prop
  | nil {room : Nat} : MultiWritten quote W room [] []
  | quote {room : Nat} {text chars : Text} (h : MultiWritten quote W room text chars) :
    MultiWritten quote W (room + 1) (quote :: text) (quote :: chars)
  | unit {room : Nat} {unit value text chars : Text} (hu : W unit value text)
    (h : MultiWritten quote W 2 text chars) :
    MultiWritten quote W room (unit ++ text) (value ++ chars)

/-- What stands between the opening quotes of a multi-line string and its first character: an end of
a line that does not count, or nothing. -/
inductive Opening : Text → Text → Prop
  | newline {newline body : Text} (h : IsNewline newline) : Opening newline body
  | nothing {body : Text} (h : ∀ newline s, IsNewline newline → body ≠ newline ++ s) :
    Opening [] body

/-- A string in any of the four forms. -/
inductive StringWritten : Text → Text → Prop
  | basic {body value : Text} (h : BasicWritten body value) :
    StringWritten ('"' :: (body ++ ['"'])) value
  | literal {value : Text} (h : IsLiteral value) :
    StringWritten ('\x27' :: (value ++ ['\x27'])) value
  | multiBasic {opening body value : Text} (ho : Opening opening body)
    (h : MultiWritten '"' BasicUnit 2 body value) :
    StringWritten (List.replicate 3 '"' ++ opening ++ body ++ List.replicate 3 '"') value
  | multiLiteral {opening body value : Text} (ho : Opening opening body)
    (h : MultiWritten '\x27' LiteralUnit 2 body value) :
    StringWritten (List.replicate 3 '\x27' ++ opening ++ body ++ List.replicate 3 '\x27') value

/-! ## Lines -/

/-- A simple key. -/
inductive KeyWritten : Text → Text → Prop
  | bare {key : Text} (hne : key ≠ [])
    (h : ∀ c ∈ key, c.isAlphanum = true ∨ c = '_' ∨ c = '-') : KeyWritten key key
  | basic {body key : Text} (h : BasicWritten body key) : KeyWritten ('"' :: (body ++ ['"'])) key
  | literal {key : Text} (h : IsLiteral key) : KeyWritten ('\x27' :: (key ++ ['\x27'])) key

/-- A string or a truth value. -/
inductive ScalarWritten : Text → Value → Prop
  | string {text value : Text} (h : StringWritten text value) : ScalarWritten text (.string value)
  | true : ScalarWritten "true".toList (.boolean true)
  | false : ScalarWritten "false".toList (.boolean false)

/-- What may stand behind a statement on its line: spaces, and maybe a comment. -/
inductive IsRemark : Text → Prop
  | spaces {spaces : Text} (hs : IsSpaces spaces) : IsRemark spaces
  | comment {spaces comment : Text} (hs : IsSpaces spaces) (hc : ∀ c ∈ comment, IsTextChar c) :
    IsRemark (spaces ++ '#' :: comment)

/-- A line without its end, and the key with its value that it holds, if it holds any. -/
inductive LineWritten : Text → Option (Text × Value) → Prop
  | blank {remark : Text} (h : IsRemark remark) : LineWritten remark none
  | assignment {indent keyText before after valueText remark key : Text} {value : Value}
    (hi : IsSpaces indent) (hk : KeyWritten keyText key) (hb : IsSpaces before)
    (ha : IsSpaces after) (hv : ScalarWritten valueText value) (hr : IsRemark remark) :
    LineWritten (indent ++ (keyText ++ (before ++ '=' :: (after ++ (valueText ++ remark)))))
      (some (key, value))

/-- Lines, the last of which may be empty, and their keys with their values. -/
inductive LinesWritten : Text → List (Text × Value) → Prop
  | last {line : Text} {entry : Option (Text × Value)} (h : LineWritten line entry) :
    LinesWritten line entry.toList
  | cons {line newline text : Text} {entry : Option (Text × Value)} {entries : List (Text × Value)}
    (h : LineWritten line entry) (hn : IsNewline newline) (hs : LinesWritten text entries) :
    LinesWritten (line ++ (newline ++ text)) (entry.toList ++ entries)

/-- A document that gives values to keys, each to another one, maybe with a byte order mark. -/
structure DocumentWritten (text : Text) (entries : List (Text × Value)) : Prop where
  lines : LinesWritten text entries ∨ ∃ body, text = Char.ofNat 0xFEFF :: body ∧
    LinesWritten body entries
  nodup : (entries.map Prod.fst).Nodup

/-! ## What can be written -/

/-- A character that does not stand for itself can be written by its number. -/
theorem exists_escapeWritten {c : Char} (h : ¬ IsPlainChar c) :
    ∃ escape, EscapeWritten escape c := by
  have hlt : c.toNat < 128 := Nat.lt_of_not_le fun hge => by
    refine h ⟨.inr ⟨by omega, ?_⟩, ?_, ?_⟩ <;>
    · rintro rfl
      revert hge
      decide
  have hdigits : ∀ n < 128,
      (hexValue? (Nat.digitChar (n / 16))).isSome ∧ (hexValue? (Nat.digitChar (n % 16))).isSome ∧
        baseValue 16 [Nat.digitChar (n / 16), Nat.digitChar (n % 16)] = n := by decide
  obtain ⟨hhigh, hlow, hc⟩ := hdigits _ hlt
  exact ⟨'x' :: _, .number (by simp [numberEscapes]) (by simp [hhigh, hlow]) hc⟩

theorem exists_basicWritten (value : Text) : ∃ body, BasicWritten body value := by
  induction value with
  | nil => exact ⟨[], .nil⟩
  | cons c value ih =>
    obtain ⟨body, hbody⟩ := ih
    by_cases hc : IsPlainChar c
    · exact ⟨_, .plain hc hbody⟩
    · obtain ⟨escape, hescape⟩ := exists_escapeWritten hc
      exact ⟨_, .escaped hescape hbody⟩

theorem exists_linesWritten {entries : List (Text × Value)}
    (h : ∀ entry ∈ entries, ∃ line, LineWritten line (some entry)) :
    ∃ text, LinesWritten text entries := by
  induction entries with
  | nil => exact ⟨[], .last (.blank (.spaces (by simp [IsSpaces])))⟩
  | cons entry entries ih =>
    obtain ⟨line, hline⟩ := h entry List.mem_cons_self
    obtain ⟨text, htext⟩ := ih fun e he => h e (List.mem_cons_of_mem entry he)
    exact ⟨_, .cons hline .lf htext⟩

/-- A line with one space on either side of the equals sign and none elsewhere. -/
theorem lineWritten_spaced {keyText key valueText : Text} {value : Value}
    (hk : KeyWritten keyText key) (hv : ScalarWritten valueText value) :
    LineWritten (keyText ++ " = ".toList ++ valueText) (some (key, value)) := by
  have hnone : IsSpaces [] := by simp [IsSpaces]
  have hspace : IsSpaces [' '] := by simp [IsSpaces]
  simpa using LineWritten.assignment hnone hk hspace hspace hv (.spaces hnone)

end CommandWords.Toml
