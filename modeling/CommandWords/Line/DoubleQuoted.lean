import CommandWords.Text.Basic

/-!
# Double-quoted text

Between double quotes a backslash protects the next character from closing the quotes
(`close?`). It disappears only before the characters that would otherwise be special there: the
dollar sign, the backquote, the double quote, the backslash and the newline (`decode`). Before any
other character it stays.
-/

namespace CommandWords.DoubleQuoted

/-- Whether a backslash before this character disappears between double quotes. -/
def isSpecial (c : Char) : Bool :=
  c == '$' || c == '\x60' || c == '"' || c == '\\' || c == '\n'

/-- The text up to the closing quote and the text behind that quote, if there is one. A character
behind a backslash never closes. -/
def close? : Text → Option (Text × Text)
  | [] => none
  | c :: cs =>
    if c = '"' then some ([], cs)
    else if c = '\\' then
      match cs with
      | [] => none
      | d :: ds => (close? ds).map fun (content, behind) => (c :: d :: content, behind)
    else (close? cs).map fun (content, behind) => (c :: content, behind)

/-- The text that a double-quoted content stands for. -/
def decode : Text → Text
  | [] => []
  | [c] => [c]
  | c :: d :: cs => if c = '\\' ∧ isSpecial d then d :: decode cs else c :: decode (d :: cs)

theorem eq_append_of_close? {s content behind : Text} (h : close? s = some (content, behind)) :
    s = content ++ '"' :: behind := by
  fun_induction close? s generalizing content with
  | case1 => simp at h
  | case2 cs => simp_all
  | case3 => simp at h
  | case4 d ds _ ih =>
    obtain ⟨⟨a, b⟩, hab, he⟩ := Option.map_eq_some_iff.1 h
    obtain ⟨rfl, rfl⟩ : '\\' :: d :: a = content ∧ b = behind := by simpa using he
    simp [ih hab]
  | case5 c cs _ _ ih =>
    obtain ⟨⟨a, b⟩, hab, he⟩ := Option.map_eq_some_iff.1 h
    obtain ⟨rfl, rfl⟩ : c :: a = content ∧ b = behind := by simpa using he
    simp [ih hab]

end CommandWords.DoubleQuoted
