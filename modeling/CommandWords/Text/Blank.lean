import CommandWords.Text.Basic

/-!
# Blank characters

The characters with the Unicode property White_Space. The ASCII separators U+001C to U+001F, the
zero-width space and the byte order mark do not have it.
-/

namespace CommandWords

/-- Whether a character is white space. -/
def isBlank (c : Char) : Bool :=
  let n := c.toNat
  (0x09 ≤ n && n ≤ 0x0D) || n == 0x20 || n == 0x85 || n == 0xA0 || n == 0x1680 ||
    (0x2000 ≤ n && n ≤ 0x200A) || n == 0x2028 || n == 0x2029 || n == 0x202F || n == 0x205F ||
    n == 0x3000

namespace Text

/-- The white space at the head of a text. -/
def blanks (s : Text) : Text := s.takeWhile isBlank

/-- A text without the white space at its head. -/
def trimLeft (s : Text) : Text := s.dropWhile isBlank

theorem blanks_append_trimLeft (s : Text) : blanks s ++ trimLeft s = s :=
  List.takeWhile_append_dropWhile

end Text

end CommandWords
