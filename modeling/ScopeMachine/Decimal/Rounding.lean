/-
# Rounding to significant digits

A positive fraction is rounded to a given number of decimal digits, counted
from its first nonzero one. A value half way between two candidates goes to the
one with the even last digit, and the comparison is made on exact integers.
-/

import ScopeMachine.Decimal.Reading

namespace ScopeMachine.Decimal

/-- The quotient rounded to the nearest integer, a half to the even one. -/
def divideToEven (numerator denominator : Nat) : Nat :=
  let quotient := numerator / denominator
  let twice := 2 * (numerator % denominator)
  if twice < denominator ∨ (twice = denominator ∧ quotient % 2 = 0) then quotient
  else quotient + 1

/-- The decimal digits of `n`, most significant first. -/
def digits (n : Nat) : List Char :=
  Nat.toDigits 10 n

/-- How often a fraction below one can be multiplied by ten before it reaches
one, counted up to `limit`. -/
def decadesBelowOne (numerator denominator : Nat) : (limit : Nat) → Nat
  | 0 => 0
  | limit + 1 =>
    if denominator ≤ numerator then 0
    else decadesBelowOne (numerator * 10) denominator limit + 1

/-- The power of ten of the first nonzero digit of a positive fraction. -/
def leadingPower (numerator denominator : Nat) : Int :=
  if denominator ≤ numerator then
    ((digits (numerator / denominator)).length : Int) - 1
  else
    -(decadesBelowOne numerator denominator (denominator.log2 + 1) : Int)

/-- A decimal number in scientific form: a coefficient of a fixed number of
digits whose first digit counts `10 ^ power`. -/
structure Scientific where
  /-- The digits as one integer. -/
  coefficient : Nat
  /-- The power of ten of the first digit. -/
  power : Int
deriving DecidableEq

namespace Scientific

/-- Round a positive fraction to `count` digits. A carry out of the first digit
moves the power up by one. -/
def round (count numerator denominator : Nat) : Scientific :=
  let power := leadingPower numerator denominator
  let scale : Int := (count : Int) - 1 - power
  let rounded :=
    divideToEven (numerator * Nat.pow 10 scale.toNat) (denominator * Nat.pow 10 (-scale).toNat)
  if rounded = Nat.pow 10 count then ⟨Nat.pow 10 (count - 1), power + 1⟩
  else ⟨rounded, power⟩

end Scientific

end ScopeMachine.Decimal
