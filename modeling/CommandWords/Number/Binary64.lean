/-!
# Double precision by exact arithmetic

The magnitude of a finite number of double precision is a whole number below 2^53 times a power of
two that is at least 2^-1074. `Binary64.round` gives the magnitude nearest to a fraction, halves
going to the even neighbour, by arithmetic on natural numbers alone. It sets no upper limit: a
magnitude of 2^1024 or more is one that double precision cannot hold (`Binary64.isFinite`).
-/

namespace CommandWords

/-- The magnitude `mantissa * 2 ^ exponent`. -/
structure Binary64 where
  mantissa : Nat
  exponent : Int
deriving DecidableEq, Repr

/-- The whole number nearest to `num / den`, halves going to the even neighbour. -/
def roundDiv (num den : Nat) : Nat :=
  let quotient := num / den
  let twice := 2 * (num % den)
  if twice < den then quotient
  else if den < twice then quotient + 1
  else if quotient % 2 = 0 then quotient else quotient + 1

namespace Binary64

/-- Zero. -/
def zero : Binary64 := ⟨0, -1074⟩

/-- The numerator of a magnitude as a fraction of natural numbers. -/
def num (x : Binary64) : Nat := x.mantissa * Nat.pow 2 x.exponent.toNat

/-- The denominator of a magnitude as a fraction of natural numbers, a power of two. -/
def den (x : Binary64) : Nat := Nat.pow 2 (-x.exponent).toNat

/-- The magnitude with the given exponent that is nearest to `num / den`. -/
def roundAt (exponent : Int) (num den : Nat) : Nat :=
  roundDiv (num * Nat.pow 2 (-exponent).toNat) (den * Nat.pow 2 exponent.toNat)

/-- The magnitude nearest to `num / den`: 53 significant bits, fewer below 2^-1022. -/
def round (num den : Nat) : Binary64 :=
  if num = 0 then zero
  else
    let guess : Int := (num.log2 : Int) - den.log2 - 53
    let fits := num * Nat.pow 2 (-guess).toNat < Nat.pow 2 53 * (den * Nat.pow 2 guess.toNat)
    let exponent := max (-1074) (if fits then guess else guess + 1)
    let mantissa := roundAt exponent num den
    if mantissa = Nat.pow 2 53 then ⟨Nat.pow 2 52, exponent + 1⟩ else ⟨mantissa, exponent⟩

/-- Whether a magnitude is below 2^1024. -/
def isFinite (x : Binary64) : Bool := x.num < Nat.pow 2 1024 * x.den

/-- The rounded product. -/
def mul (x y : Binary64) : Binary64 := round (x.num * y.num) (x.den * y.den)

/-- The rounded quotient. -/
def div (x y : Binary64) : Binary64 := round (x.num * y.den) (x.den * y.num)

/-- The magnitude nearest to a power of ten. -/
def pow10 (n : Nat) : Binary64 := round (Nat.pow 10 n) 1

/-- A magnitude divided by a power of ten, the powers above 10^308 in several divisions. -/
def scaleDown (x : Binary64) (n : Nat) : Binary64 :=
  if n ≤ 308 then x.div (pow10 n)
  else if x.mantissa = 0 then x
  else scaleDown (x.div (pow10 308)) (n - 308)
termination_by n
decreasing_by omega

/-- `significand * 10 ^ exponent` as a magnitude, none if it is too large. The significand and the
power of ten are rounded before they are put together. -/
def ofDecimal? (significand : Nat) (exponent : Int) : Option Binary64 :=
  let x := round significand 1
  if exponent < 0 then some (x.scaleDown exponent.natAbs)
  else if exponent ≤ 308 then
    let product := x.mul (pow10 exponent.toNat)
    if product.isFinite then some product else none
  else if significand = 0 then some x
  else none

end Binary64

end CommandWords
