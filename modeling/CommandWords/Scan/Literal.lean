import CommandWords.Scan.Basic

/-!
# Searching for a fixed text

`findLiteral` matches the first occurrence of a text. The empty text occurs at the beginning of
every text.
-/

namespace CommandWords

/-- The byte of a text at which the first occurrence of `literal` starts. -/
def literalPosition? (literal : Text) : Text → Option Nat
  | [] => if literal.isEmpty then some 0 else none
  | c :: cs =>
    if literal.isPrefixOf (c :: cs) then some 0
    else (literalPosition? literal cs).map (c.utf8Size + ·)

/-- The first occurrence of `literal`, with the byte it starts at. -/
def findLiteral (literal s : Text) : Option (Found Nat) :=
  (literalPosition? literal s).map fun start => ⟨start, start + literal.byteSize, start⟩

end CommandWords
