import CommandWords.Line.DoubleQuoted
import CommandWords.Scan.Basic
import CommandWords.Text.Blank

/-!
# The steps of a command line

A command line is read in steps: a run of plain characters, a quoted text, an escaped character,
or a quote that nothing closes. `Step.read?` takes the step at the head of a text and `Step.raw`
is the text it was read from, so that the two together give the text back (`raw_append_of_read?`).

`findStep` is the search that a scan of a command line uses: it skips white space, takes one step,
and takes one character of white space behind it, if there is one, as the separator.
-/

namespace CommandWords

/-- The two kinds of quotes. -/
inductive Quote where
  | single
  | double
deriving DecidableEq, Repr

/-- The character that opens and closes a quoted text. -/
def Quote.char : Quote → Char
  | .single => '\x27'
  | .double => '"'

/-- One step in reading a command line. -/
inductive Step where
  /-- A run of characters that are not white space, backslashes or quotes. -/
  | word (text : Text)
  /-- The text between single quotes, which stands for itself. -/
  | singleQuoted (content : Text)
  /-- The text between double quotes, its backslashes not yet resolved. -/
  | doubleQuoted (content : Text)
  /-- A backslash outside quotes with the character it escapes; none at the end of the line and
  before a newline. -/
  | escaped (char : Option Char)
  /-- A quote that is never closed. -/
  | unclosed (quote : Quote)
deriving DecidableEq, Repr

namespace Step

/-- The text that a step is read from. -/
def raw : Step → Text
  | .word text => text
  | .singleQuoted content => Quote.single.char :: content ++ [Quote.single.char]
  | .doubleQuoted content => Quote.double.char :: content ++ [Quote.double.char]
  | .escaped (some c) => ['\\', c]
  | .escaped none => ['\\']
  | .unclosed quote => [quote.char]

/-- The text that a step adds to the word it belongs to; none for a quote that is never closed. -/
def value : Step → Except Quote Text
  | .word text => .ok text
  | .singleQuoted content => .ok content
  | .doubleQuoted content => .ok (DoubleQuoted.decode content)
  | .escaped c => .ok [c.getD '\\']
  | .unclosed quote => .error quote

/-- Whether a step is a pair of quotes with nothing between them. -/
def isEmptyQuotes : Step → Bool
  | .singleQuoted content => content.isEmpty
  | .doubleQuoted content => content.isEmpty
  | _ => false

end Step

/-- Whether a character outside quotes ends a run of plain characters. -/
def endsWord (c : Char) : Bool :=
  isBlank c || c == '\\' || c == Quote.single.char || c == Quote.double.char

/-- The text up to the next single quote and the text behind it, if there is one. -/
def closeSingle? : Text → Option (Text × Text)
  | [] => none
  | c :: cs =>
    if c = Quote.single.char then some ([], cs)
    else (closeSingle? cs).map fun (content, behind) => (c :: content, behind)

/-- The step at the head of a text that does not start with white space, and what follows it. -/
def Step.read? : Text → Option (Step × Text)
  | [] => none
  | c :: cs =>
    if c = Quote.single.char then
      match closeSingle? cs with
      | some (content, behind) => some (.singleQuoted content, behind)
      | none => some (.unclosed .single, cs)
    else if c = Quote.double.char then
      match DoubleQuoted.close? cs with
      | some (content, behind) => some (.doubleQuoted content, behind)
      | none => some (.unclosed .double, cs)
    else if c = '\\' then
      match cs with
      | [] => some (.escaped none, [])
      | d :: ds => if d = '\n' then some (.escaped none, d :: ds) else some (.escaped (some d), ds)
    else
      some (.word ((c :: cs).takeWhile (!endsWord ·)), (c :: cs).dropWhile (!endsWord ·))

theorem eq_append_of_closeSingle? {s content behind : Text}
    (h : closeSingle? s = some (content, behind)) : s = content ++ Quote.single.char :: behind := by
  fun_induction closeSingle? s generalizing content with
  | case1 => simp at h
  | case2 cs => simp_all
  | case3 c cs _ ih =>
    obtain ⟨⟨a, b⟩, hab, he⟩ := Option.map_eq_some_iff.1 h
    obtain ⟨rfl, rfl⟩ : c :: a = content ∧ b = behind := by simpa using he
    simp [ih hab]

/-- A step and what follows it are the whole text. -/
theorem Step.raw_append_of_read? {s rest : Text} {step : Step}
    (h : Step.read? s = some (step, rest)) : step.raw ++ rest = s := by
  fun_cases Step.read? s with
  | case1 => simp [Step.read?] at h
  | case2 cs content behind hc =>
    obtain ⟨rfl, rfl⟩ : .singleQuoted content = step ∧ behind = rest := by
      simpa [Step.read?, hc] using h
    simp [Step.raw, eq_append_of_closeSingle? hc]
  | case3 cs hc =>
    obtain ⟨rfl, rfl⟩ : .unclosed .single = step ∧ cs = rest := by simpa [Step.read?, hc] using h
    simp [Step.raw]
  | case4 cs content behind hc hq =>
    obtain ⟨rfl, rfl⟩ : .doubleQuoted content = step ∧ behind = rest := by
      simpa [Step.read?, hc, hq] using h
    simp [Step.raw, DoubleQuoted.eq_append_of_close? hc, Quote.char]
  | case5 cs hc hq =>
    obtain ⟨rfl, rfl⟩ : .unclosed .double = step ∧ cs = rest := by
      simpa [Step.read?, hc, hq] using h
    simp [Step.raw]
  | case6 =>
    obtain ⟨rfl, rfl⟩ : .escaped none = step ∧ [] = rest := by
      simpa [Step.read?, Quote.char] using h
    simp [Step.raw]
  | case7 =>
    rename_i ds _ _
    obtain ⟨rfl, rfl⟩ : .escaped none = step ∧ '\n' :: ds = rest := by
      simpa [Step.read?, Quote.char] using h
    simp [Step.raw]
  | case8 =>
    rename_i d ds hd _ _
    obtain ⟨rfl, rfl⟩ : .escaped (some d) = step ∧ ds = rest := by
      simpa [Step.read?, Quote.char, hd] using h
    simp [Step.raw]
  | case9 c cs h₁ h₂ h₃ =>
    obtain ⟨rfl, rfl⟩ : .word ((c :: cs).takeWhile (!endsWord ·)) = step ∧
        (c :: cs).dropWhile (!endsWord ·) = rest := by
      simpa [Step.read?, h₁, h₂, h₃] using h
    exact List.takeWhile_append_dropWhile

/-- What the search for a step tells about it. -/
structure StepMatch where
  step : Step
  /-- The bytes of white space before the step. -/
  offset : Nat
  /-- Whether white space or the end of the text follows the step. -/
  separated : Bool
deriving DecidableEq, Repr

/-- The first step of a text with the white space before it and at most one character of white
space behind it; none if the text is all white space. -/
def findStep (s : Text) : Option (Found StepMatch) :=
  match Step.read? s.trimLeft with
  | none => none
  | some (step, rest) =>
    let offset := s.blanks.byteSize
    let stop := offset + step.raw.byteSize
    match rest with
    | [] => some ⟨0, stop, step, offset, true⟩
    | c :: _ =>
      if isBlank c then some ⟨0, stop + c.utf8Size, step, offset, true⟩
      else some ⟨0, stop, step, offset, false⟩

end CommandWords
