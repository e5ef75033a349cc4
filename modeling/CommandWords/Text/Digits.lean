import CommandWords.Text.Basic

/-!
# Digits

The values of digits up to base sixteen, and of sequences of them.
-/

namespace CommandWords

/-- The value of a hexadecimal digit in either case. -/
def hexValue? (c : Char) : Option Nat :=
  if '0' ≤ c ∧ c ≤ '9' then some (c.toNat - '0'.toNat)
  else if 'a' ≤ c ∧ c ≤ 'f' then some (c.toNat - 'a'.toNat + 10)
  else if 'A' ≤ c ∧ c ≤ 'F' then some (c.toNat - 'A'.toNat + 10)
  else none

/-- The value of a digit, zero for any other character. -/
def digitValue (c : Char) : Nat := (hexValue? c).getD 0

/-- The value of a sequence of digits in a base. -/
def baseValue (base : Nat) (digits : Text) : Nat :=
  digits.foldl (fun n c => base * n + digitValue c) 0

end CommandWords
