import CommandWords.Text.Digits

/-!
# The lexical parts of TOML

White space, line ends, comments, strings and keys. Each reader takes its part from the head of a
text and gives what follows; a carriage return counts only as the first half of a line end.
-/

namespace CommandWords.Toml

/-- Whether a character separates the parts of a line. -/
def isSpace (c : Char) : Bool := c == ' ' || c == '\t'

/-- A text without the spaces and tabs at its head. -/
def skipSpace (s : Text) : Text := s.dropWhile isSpace

/-- Whether a character may stand in a comment or a string: none of the control characters but
the tab may. -/
def isTextChar (c : Char) : Bool := c == '\t' || (0x20 ≤ c.toNat && c.toNat != 0x7F)

/-- The text behind the line end at the head of a text. -/
def newline? : Text → Option Text
  | '\n' :: rest => some rest
  | '\r' :: '\n' :: rest => some rest
  | _ => none

/-- The text behind the comment at the head of a text, if there is one. -/
def skipComment : Text → Text
  | '#' :: rest => rest.dropWhile isTextChar
  | s => s

theorem length_skipSpace_le (s : Text) : (skipSpace s).length ≤ s.length :=
  (List.dropWhile_suffix isSpace).length_le

theorem length_skipComment_le (s : Text) : (skipComment s).length ≤ s.length := by
  unfold skipComment
  split
  · exact Nat.le_succ_of_le (List.dropWhile_suffix isTextChar).length_le
  · exact Nat.le_refl _

theorem length_lt_of_newline? {s rest : Text} (h : newline? s = some rest) :
    rest.length < s.length := by
  unfold newline? at h
  split at h
  · obtain rfl := Option.some.inj h
    simp
  · obtain rfl := Option.some.inj h
    simp only [List.length_cons]
    omega
  · simp at h

/-- A text without the spaces, comments and line ends at its head. -/
def skipLines (s : Text) : Text :=
  match _h : newline? (skipComment (skipSpace s)) with
  | some rest => skipLines rest
  | none => skipComment (skipSpace s)
termination_by s.length
decreasing_by
  have := length_lt_of_newline? _h
  have := length_skipComment_le (skipSpace s)
  have := length_skipSpace_le s
  omega

/-- The text behind the rest of a line: spaces, maybe a comment, and the line end or the end of
the text. -/
def endOfLine? (s : Text) : Option Text :=
  let rest := skipComment (skipSpace s)
  if rest.isEmpty then some [] else newline? rest

/-! ## Strings -/

/-- The number that exactly `count` hexadecimal digits stand for, added behind `acc`. -/
def readHex? : (count acc : Nat) → Text → Option (Nat × Text)
  | 0, acc, s => some (acc, s)
  | _ + 1, _, [] => none
  | count + 1, acc, c :: rest => (hexValue? c).bind fun d => readHex? count (acc * 16 + d) rest

/-- The character with a given number. -/
def char? (n : Nat) : Option Char := if n.isValidChar then some (Char.ofNat n) else none

/-- The character that so many hexadecimal digits give by its number. -/
def readCode? (count : Nat) (s : Text) : Option (Char × Text) :=
  (readHex? count 0 s).bind fun (n, rest) => (char? n).map (·, rest)

/-- The character that the text behind a backslash stands for. -/
def readEscape? : Text → Option (Char × Text)
  | [] => none
  | c :: rest =>
    if c = 'b' then some ('\x08', rest)
    else if c = 't' then some ('\t', rest)
    else if c = 'n' then some ('\n', rest)
    else if c = 'f' then some ('\x0c', rest)
    else if c = 'r' then some ('\r', rest)
    else if c = 'e' then some ('\x1b', rest)
    else if c = '"' ∨ c = '\\' then some (c, rest)
    else if c = 'x' then readCode? 2 rest
    else if c = 'u' then readCode? 4 rest
    else if c = 'U' then readCode? 8 rest
    else none

theorem length_le_of_readHex? {count acc n : Nat} {s rest : Text}
    (h : readHex? count acc s = some (n, rest)) : rest.length ≤ s.length := by
  fun_induction readHex? count acc s with
  | case1 acc s => simp_all
  | case2 => simp at h
  | case3 count acc c cs ih =>
    obtain ⟨d, -, hd⟩ := Option.bind_eq_some_iff.1 h
    exact Nat.le_succ_of_le (ih d hd)

theorem length_le_of_readCode? {count : Nat} {c : Char} {s rest : Text}
    (h : readCode? count s = some (c, rest)) : rest.length ≤ s.length := by
  obtain ⟨⟨n, rest'⟩, hn, hc⟩ := Option.bind_eq_some_iff.1 h
  obtain ⟨d, -, hd⟩ := Option.map_eq_some_iff.1 hc
  obtain ⟨-, rfl⟩ : d = c ∧ rest' = rest := by simpa using hd
  exact length_le_of_readHex? hn

theorem length_lt_of_readEscape? {c : Char} {s rest : Text}
    (h : readEscape? s = some (c, rest)) : rest.length < s.length := by
  cases s with
  | nil => simp [readEscape?] at h
  | cons d ds =>
    have step {p : Prop} [Decidable p] {x : Char} {e : Option (Char × Text)}
        (he : e = some (c, rest) → rest.length ≤ ds.length)
        (h : (if p then some (x, ds) else e) = some (c, rest)) : rest.length ≤ ds.length := by
      split at h
      · obtain ⟨-, rfl⟩ : x = c ∧ ds = rest := by simpa using h
        exact Nat.le_refl _
      · exact he h
    have code {p : Prop} [Decidable p] {count : Nat} {e : Option (Char × Text)}
        (he : e = some (c, rest) → rest.length ≤ ds.length)
        (h : (if p then readCode? count ds else e) = some (c, rest)) :
        rest.length ≤ ds.length := by
      split at h
      · exact length_le_of_readCode? h
      · exact he h
    refine Nat.lt_succ_of_le (step (step (step (step (step (step (step (code (code (code ?_)))))))))
      h)
    simp

/-- The characters of a basic string up to its closing quote, and the text behind that quote. -/
def readBasic? (s : Text) : Option (Text × Text) :=
  match s with
  | [] => none
  | c :: rest =>
    if c = '"' then some ([], rest)
    else if c = '\\' then
      match _h : readEscape? rest with
      | some (d, rest') => (readBasic? rest').map fun (chars, behind) => (d :: chars, behind)
      | none => none
    else if isTextChar c then (readBasic? rest).map fun (chars, behind) => (c :: chars, behind)
    else none
termination_by s.length
decreasing_by
  · have := length_lt_of_readEscape? _h
    simp only [List.length_cons]
    omega
  · simp

/-- The characters of a literal string up to its closing quote, and the text behind that quote. -/
def readLiteral? : Text → Option (Text × Text)
  | [] => none
  | c :: rest =>
    if c = '\x27' then some ([], rest)
    else if isTextChar c then (readLiteral? rest).map fun (chars, behind) => (c :: chars, behind)
    else none

/-- The end of a multi-line string at the head of a text: three quotes, before which up to two
more belong to the string. Gives those quotes and the text behind. -/
def closing? (quote : Char) (s : Text) : Option (Text × Text) :=
  let run := min 5 (s.takeWhile (· == quote)).length
  if run < 3 then none else some (List.replicate (run - 3) quote, s.drop run)

/-- The text behind spaces and line ends. -/
def skipBlankLines : Text → Text
  | [] => []
  | '\r' :: '\n' :: rest => skipBlankLines rest
  | c :: rest => if isSpace c || c == '\n' then skipBlankLines rest else c :: rest

/-- The text behind a backslash that ends a line of a multi-line string, up to the next character
that is no white space. -/
def lineContinuation? (s : Text) : Option Text :=
  (newline? (skipSpace s)).map skipBlankLines

theorem length_skipBlankLines_le (s : Text) : (skipBlankLines s).length ≤ s.length := by
  fun_induction skipBlankLines s with
  | case1 => simp
  | case2 rest ih => simp only [List.length_cons]; omega
  | case3 c rest _ _ ih => simp only [List.length_cons]; omega
  | case4 => simp

theorem length_lt_of_lineContinuation? {s rest : Text} (h : lineContinuation? s = some rest) :
    rest.length < s.length := by
  obtain ⟨r, hr, rfl⟩ := Option.map_eq_some_iff.1 h
  have := length_lt_of_newline? hr
  have := length_skipSpace_le s
  have := length_skipBlankLines_le r
  omega

/-- The characters of a multi-line basic string up to its closing quotes, and the text behind. -/
def readMultiBasic? (s : Text) : Option (Text × Text) :=
  match s with
  | [] => none
  | c :: rest =>
    match closing? '"' (c :: rest) with
    | some end' => some end'
    | none =>
      if c = '\\' then
        match _hl : lineContinuation? rest with
        | some rest' => readMultiBasic? rest'
        | none =>
          match _he : readEscape? rest with
          | some (d, rest') =>
            (readMultiBasic? rest').map fun (chars, behind) => (d :: chars, behind)
          | none => none
      else if isTextChar c || c == '\n' || (c == '\r' && rest.head? == some '\n') then
        (readMultiBasic? rest).map fun (chars, behind) => (c :: chars, behind)
      else none
termination_by s.length
decreasing_by
  · have := length_lt_of_lineContinuation? _hl
    simp only [List.length_cons]
    omega
  · have := length_lt_of_readEscape? _he
    simp only [List.length_cons]
    omega
  · simp

/-- The characters of a multi-line literal string up to its closing quotes, and the text behind. -/
def readMultiLiteral? : Text → Option (Text × Text)
  | [] => none
  | c :: rest =>
    match closing? '\x27' (c :: rest) with
    | some end' => some end'
    | none =>
      if isTextChar c || c == '\n' || (c == '\r' && rest.head? == some '\n') then
        (readMultiLiteral? rest).map fun (chars, behind) => (c :: chars, behind)
      else none

/-- A text without a line end at its head. -/
def trimNewline (s : Text) : Text := (newline? s).getD s

/-- The string of any form at the head of a text. -/
def readString? : Text → Option (Text × Text)
  | '"' :: '"' :: '"' :: rest => readMultiBasic? (trimNewline rest)
  | '"' :: rest => readBasic? rest
  | '\x27' :: '\x27' :: '\x27' :: rest => readMultiLiteral? (trimNewline rest)
  | '\x27' :: rest => readLiteral? rest
  | _ => none

/-! ## Keys -/

/-- Whether a character may stand in a key without quotes. -/
def isBareChar (c : Char) : Bool := c.isAlphanum || c == '_' || c == '-'

/-- The simple key at the head of a text: bare, or a string on one line. -/
def readSimpleKey? (s : Text) : Option (Text × Text) :=
  match s with
  | '"' :: rest => readBasic? rest
  | '\x27' :: rest => readLiteral? rest
  | s =>
    let key := s.takeWhile isBareChar
    if key.isEmpty then none else some (key, s.dropWhile isBareChar)

/-- The simple keys at the head of a text, each behind spaces and with points between them, and the
text behind the spaces that follow the last. -/
def readKeyParts? (s : Text) : Option (List Text × Text) :=
  match readSimpleKey? (skipSpace s) with
  | none => none
  | some (key, rest) =>
    match skipSpace rest with
    | '.' :: rest =>
      if rest.length < s.length then
        (readKeyParts? rest).map fun (keys, behind) => (key :: keys, behind)
      else none
    | rest => some ([key], rest)
termination_by s.length

/-- How many parts a dotted key may have. -/
def keyPartLimit : Nat := 80

/-- The dotted key at the head of a text, as its parts, and the text behind it. -/
def readKey? (s : Text) : Option (List Text × Text) :=
  (readKeyParts? s).filter fun (keys, _) => keys.length ≤ keyPartLimit

end CommandWords.Toml
