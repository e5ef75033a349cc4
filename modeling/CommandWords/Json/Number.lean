import CommandWords.Number.Shortest
import CommandWords.Text.Digits

/-!
# JSON numbers

A numeral without fraction and exponent is an integer if 64 bits hold it; every other numeral is a
number of double precision, and so is minus zero. Only as many digits enter the significand as 64
bits hold: further digits of the whole part count for their place, further digits of the fraction
do not count.

A number of double precision is written with the fewest digits that read back, positionally from
10^-5 up to 10^16 and with an exponent elsewhere, and never without a decimal point or an exponent.
An exponent has a sign and no leading zeros.
-/

namespace CommandWords.Json

/-- A JSON number. -/
inductive Number where
  | integer (value : Int)
  | float (negative : Bool) (magnitude : Binary64)
deriving DecidableEq, Repr

/-- The parts of a numeral as it is spelled. -/
structure Numeral where
  negative : Bool
  /-- The digits before the point. -/
  whole : Text
  /-- The digits behind the point, if there is one. -/
  fraction : Option Text
  /-- Whether the exponent is negative, and its digits, if there is one. -/
  exponent : Option (Bool × Text)
deriving DecidableEq, Repr

namespace Numeral

/-- The largest number that 64 bits hold. -/
def limit : Nat := Nat.pow 2 64 - 1

/-- The significand and the exponent after digits of the whole part. -/
def wholeParts (significand exponent : Nat) : Text → Nat × Nat
  | [] => (significand, exponent)
  | c :: cs =>
    let next := significand * 10 + digitValue c
    if exponent = 0 ∧ next ≤ limit then wholeParts next 0 cs
    else wholeParts significand (exponent + 1) cs

/-- The significand and the exponent after digits of the fraction. -/
def fractionParts (significand : Nat) (exponent : Int) : Text → Nat × Int
  | [] => (significand, exponent)
  | c :: cs =>
    let next := significand * 10 + digitValue c
    if next ≤ limit then fractionParts next (exponent - 1) cs else (significand, exponent)

/-- The value of the written exponent. -/
def exponentValue (numeral : Numeral) : Int :=
  match numeral.exponent with
  | none => 0
  | some (true, digits) => -(baseValue 10 digits : Int)
  | some (false, digits) => baseValue 10 digits

/-- A numeral as a number of double precision; none if it is too large. -/
def float? (numeral : Numeral) : Option Number :=
  let (significand, places) := wholeParts 0 0 numeral.whole
  let (significand, places) := fractionParts significand places (numeral.fraction.getD [])
  (Binary64.ofDecimal? significand (places + numeral.exponentValue)).map (.float numeral.negative)

/-- The number that a numeral stands for; none if it is too large. -/
def number? (numeral : Numeral) : Option Number :=
  if numeral.fraction.isNone && numeral.exponent.isNone then
    let value := baseValue 10 numeral.whole
    if numeral.negative then
      if value = 0 then some (.float true .zero)
      else if value ≤ Nat.pow 2 63 then some (.integer (-value))
      else numeral.float?
    else if value ≤ limit then some (.integer value)
    else numeral.float?
  else numeral.float?

end Numeral

/-- The text of an exponent, its sign always written. -/
def exponentText (exponent : Int) : Text :=
  'e' :: (if exponent < 0 then '-' else '+') :: Nat.toDigits 10 exponent.natAbs

/-- The text of a decimal number that has a point or an exponent. -/
def decimalText (d : Decimal) : Text :=
  let digits := Nat.toDigits 10 d.digits
  let point := digits.length + d.exponent
  if d.digits = 0 then ['0', '.', '0']
  else if 0 ≤ d.exponent ∧ point ≤ 16 then
    digits ++ List.replicate d.exponent.toNat '0' ++ ['.', '0']
  else if 0 < point ∧ point ≤ 16 then
    digits.take point.toNat ++ '.' :: digits.drop point.toNat
  else if -5 < point ∧ point ≤ 0 then
    '0' :: '.' :: List.replicate (-point).toNat '0' ++ digits
  else
    let exponent := exponentText (point - 1)
    match digits with
    | [] => exponent
    | [digit] => digit :: exponent
    | digit :: digits => digit :: '.' :: digits ++ exponent

/-- The text of a number. -/
def Number.text : Number → Text
  | .integer value => (toString value).toList
  | .float negative magnitude =>
    (if negative then ['-'] else []) ++ decimalText magnitude.shortest

end CommandWords.Json
