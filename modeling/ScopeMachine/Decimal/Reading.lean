/-
# Exact values of binary floating-point numbers

A binary floating-point number is read from its bits: not a number, infinite,
or an exact fraction `± mantissa · 2 ^ exponent`. Everything that the library
says about such numbers in decimal or as integers starts from this reading, so
no rounding of the machine's arithmetic takes part in it.
-/

namespace ScopeMachine.Decimal

/-- A signed fraction with a power of two as its denominator. Zero keeps its
sign, as binary floating-point numbers do. -/
structure Fraction where
  /-- Whether the value stands left of zero, or is the negative zero. -/
  negative : Bool
  /-- The magnitude in units of `2 ^ exponent`. -/
  mantissa : Nat
  /-- The power of two that the mantissa counts. -/
  exponent : Int
deriving DecidableEq

/-- What the bits of a floating-point number stand for. -/
inductive Reading where
  /-- Not a number; the sign bit is kept. -/
  | nan (negative : Bool)
  /-- One of the two infinities. -/
  | infinite (negative : Bool)
  /-- A finite value, exactly. -/
  | finite (value : Fraction)
deriving DecidableEq

namespace Fraction

/-- Numerator of the magnitude. -/
def numerator (value : Fraction) : Nat :=
  value.mantissa * Nat.pow 2 value.exponent.toNat

/-- Denominator of the magnitude, a power of two. -/
def denominator (value : Fraction) : Nat :=
  Nat.pow 2 (-value.exponent).toNat

/-- The integer next to the value on the side of zero. -/
def truncate (value : Fraction) : Int :=
  let magnitude : Int := (value.numerator / value.denominator : Nat)
  if value.negative then -magnitude else magnitude

end Fraction

namespace Reading

/-- Read bits laid out as sign, exponent and fraction, with `exponentBits` and
`fractionBits` bits for the latter two, as IEEE 754 lays them out. -/
def ofBits (exponentBits fractionBits bits : Nat) : Reading :=
  let fractions := Nat.pow 2 fractionBits
  let exponents := Nat.pow 2 exponentBits
  let negative := bits / fractions / exponents % 2 == 1
  let exponent := bits / fractions % exponents
  let fraction := bits % fractions
  let bias : Int := (exponents / 2 - 1 + fractionBits : Nat)
  if exponent = exponents - 1 then
    if fraction = 0 then .infinite negative else .nan negative
  else if exponent = 0 then .finite ⟨negative, fraction, 1 - bias⟩
  else .finite ⟨negative, fractions + fraction, exponent - bias⟩

/-- Whether the value is one of the two zeros. -/
def isZero : Reading → Bool
  | .finite value => value.mantissa == 0
  | _ => false

/-- The integer between `low` and `high` that is nearest to the value cut off
towards zero; zero if there is no value. -/
def clamp (low high : Int) : Reading → Int
  | .nan _ => 0
  | .infinite negative => if negative then low else high
  | .finite value => max low (min high value.truncate)

end Reading

end ScopeMachine.Decimal
