import CommandWords.Regex.Basic

/-!
# A catalogue of regular expressions

Expressions that are known by a name.
-/

namespace CommandWords.Regex

private def digit : CharRange := ⟨'0', '9'⟩

private def letter : CharRange := ⟨'a', 'z'⟩

private def character (c : Char) : Regex := .one ⟨c, c⟩

/-- The expression with a given name. -/
def named? : String → Option Regex
  | "digits" => some (oneOrMore digit)
  | "letters" => some (oneOrMore letter)
  | "pair" =>
    some (.seq (.group 1 (.one letter)) (.seq (character '=') (.group 2 (.one digit))))
  | "optpair" =>
    let value := Regex.group 2 (.seq (character '=') (.group 3 (.many digit)))
    some (.seq (.group 1 (oneOrMore letter)) (.seq (optional value) (character ';')))
  | "xstar" => some (.many ⟨'x', 'x'⟩)
  | "never" => some (character 'z')
  | "any" => some (.one ⟨Char.ofNat 0, Char.ofNat 0x10FFFF⟩)
  | "head" => some (.seq .startOfText (.one letter))
  | "eol" => some .endOfLine
  | "end" => some .endOfText
  | "alt" =>
    some (.alt (literal ['a', 'b']) (.alt (character 'a') (.group 1 (character 'b'))))
  | _ => none

end CommandWords.Regex
