/-
# General notation of numbers

The general notation writes a number with a given number of significant digits,
positionally where its power of ten allows it and with an exponent elsewhere,
and never shows a zero at the end of a fraction. It is what the conversion `%g`
stands for.

A number is rounded twice. Rounding to significant digits decides its power of
ten, and with it the notation; what is written positionally is then rounded once
more, from the exact value to as many places as that power leaves.
-/

import ScopeMachine.Decimal.Rounding

namespace ScopeMachine.Decimal

/-- Drop what `c` repeats at the end of a text. -/
def dropTrailing (c : Char) (text : List Char) : List Char :=
  (text.reverse.dropWhile (· == c)).reverse

/-- Drop the zeros at the end of a fraction, and its point if nothing follows it. -/
def trimFraction (text : List Char) : List Char :=
  if text.contains '.' then dropTrailing '.' (dropTrailing '0' text) else text

/-- The digits of a number, with zeros in front if there are fewer than `least`. -/
def padded (least n : Nat) : List Char :=
  let shown := digits n
  List.replicate (least - shown.length) '0' ++ shown

/-- A number of units of the last of `places` decimal places, with at least one digit in
front of the point. There is no point if there are no places. -/
def placed (places units : Nat) : List Char :=
  let all := padded (places + 1) units
  let whole := all.length - places
  if places = 0 then all else all.take whole ++ '.' :: all.drop whole

/-- The exponent mark: a sign and at least two digits. -/
def exponentMark (power : Int) : List Char :=
  'e' :: (if power < 0 then '-' else '+') :: padded 2 power.natAbs

/-- A positive fraction rounded to decimal places. -/
def fixedText (places numerator denominator : Nat) : List Char :=
  placed places (divideToEven (numerator * Nat.pow 10 places) denominator)

/-- A positive fraction with `count` significant digits: positionally from the fourth
place after the point up to the last of the digits, with an exponent elsewhere. -/
def generalText (count numerator denominator : Nat) : List Char :=
  let number := Scientific.round count numerator denominator
  if number.power < -4 ∨ (count : Int) ≤ number.power then
    trimFraction (placed (count - 1) number.coefficient) ++ exponentMark number.power
  else
    trimFraction (fixedText ((count : Int) - 1 - number.power).toNat numerator denominator)

namespace Reading

/-- The mark in front of a negative number. -/
def signText (negative : Bool) : List Char :=
  if negative then ['-'] else []

/-- General notation with `precision` significant digits, at least one. -/
def generalText (precision : Nat) : Reading → String
  | .nan negative => String.ofList (signText negative ++ ['n', 'a', 'n'])
  | .infinite negative => String.ofList (signText negative ++ ['i', 'n', 'f'])
  | .finite value =>
    if value.mantissa = 0 then String.ofList (signText value.negative ++ ['0'])
    else
      String.ofList (signText value.negative ++
        Decimal.generalText (max precision 1) value.numerator value.denominator)

end Reading

/-- The number of digits that traces and conversions to text show. -/
def shownPrecision : Nat := 6

end ScopeMachine.Decimal
