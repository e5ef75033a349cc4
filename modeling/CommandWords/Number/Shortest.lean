import CommandWords.Number.Binary64

/-!
# The shortest decimal form of a magnitude

Of the decimal numbers that round to a given magnitude, `Binary64.shortest` gives the one with the
fewest digits, and of those the nearest. The decimals that round to `m * 2 ^ q` are those between
the midpoints to its two neighbours, the midpoints included exactly if `m` is even.
-/

namespace CommandWords

/-- `digits * 10 ^ exponent`. -/
structure Decimal where
  digits : Nat
  exponent : Int
deriving DecidableEq, Repr

namespace Decimal

/-- The number of decimal digits of a number, none for zero. -/
def digitCount (n : Nat) : Nat := if n = 0 then 0 else (Nat.toDigits 10 n).length

/-- The exponent of the largest power of ten that is at most `num / den`. -/
def magnitude (num den : Nat) : Int :=
  if den ≤ num then (digitCount (num / den) : Int) - 1
  else -(digitCount ((den + num - 1) / num - 1) : Int)

/-- Removes trailing zeros from the digits. -/
def normalize (d : Decimal) : Decimal :=
  if d.digits = 0 then ⟨0, 0⟩
  else if d.digits % 10 = 0 then normalize ⟨d.digits / 10, d.exponent + 1⟩
  else d
termination_by d.digits
decreasing_by omega

end Decimal

namespace Binary64

/-- Whether `digits * 10 ^ exponent` rounds to a magnitude that is not zero. -/
def admits (x : Binary64) (digits : Nat) (exponent : Int) : Bool :=
  let lowGap := if x.mantissa = Nat.pow 2 52 ∧ -1074 < x.exponent then 1 else 2
  -- four times the decimal, the magnitude and its bounds, over one denominator
  let decimal := 4 * digits * Nat.pow 10 exponent.toNat * x.den
  let scale := Nat.pow 10 (-exponent).toNat * Nat.pow 2 x.exponent.toNat
  let low := (4 * x.mantissa - lowGap) * scale
  let high := (4 * x.mantissa + 2) * scale
  if x.mantissa % 2 = 0 then low ≤ decimal && decimal ≤ high else low < decimal && decimal < high

/-- The decimals of the grid `10 ^ exponent` next to a magnitude, the nearer first. -/
def neighbours (x : Binary64) (exponent : Int) : List Nat :=
  let num := x.num * Nat.pow 10 (-exponent).toNat
  let den := x.den * Nat.pow 10 exponent.toNat
  let below := num / den
  if roundDiv num den = below then [below, below + 1] else [below + 1, below]

/-- The first decimal with at least `17 - spare` digits that rounds to the magnitude. -/
def shortestFrom (x : Binary64) (top : Int) : Nat → Decimal
  | 0 =>
    let num := x.num * Nat.pow 10 (16 - top).toNat
    let den := x.den * Nat.pow 10 (top - 16).toNat
    ⟨roundDiv num den, top - 16⟩
  | spare + 1 =>
    let exponent := top - 15 + spare
    match (x.neighbours exponent).find? (x.admits · exponent) with
    | some digits => ⟨digits, exponent⟩
    | none => x.shortestFrom top spare

/-- The decimal with the fewest digits that rounds to the magnitude. -/
def shortest (x : Binary64) : Decimal :=
  if x.mantissa = 0 then ⟨0, 0⟩
  else (x.shortestFrom (Decimal.magnitude x.num x.den) 16).normalize

end Binary64

end CommandWords
