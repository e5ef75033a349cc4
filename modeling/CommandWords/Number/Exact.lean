import CommandWords.Number.Shortest

/-!
# Decimals rounded once

The magnitude of double precision nearest to a decimal. Decimals far outside the range of double
precision are recognised by their number of digits, so that no huge power of ten is computed.
-/

namespace CommandWords.Binary64

/-- The magnitude nearest to a decimal, none if it is too large. -/
def ofDecimalExact? (d : Decimal) : Option Binary64 :=
  let places := Decimal.digitCount d.digits + d.exponent
  if d.digits = 0 ∨ places < -400 then some zero
  else if 400 < places then none
  else
    let num := d.digits * Nat.pow 10 d.exponent.toNat
    let x := round num (Nat.pow 10 (-d.exponent).toNat)
    if x.isFinite then some x else none

end CommandWords.Binary64
