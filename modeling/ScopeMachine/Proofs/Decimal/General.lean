/-
# The general notation shows the rounded number

A number in general notation is a numeral for the number that rounding to the significant
digits gives. Written with an exponent it is laid out from the digits of the first rounding;
written positionally it is rounded again, to as many places as the first rounding leaves,
and this gives the same digits.
-/

import ScopeMachine.Decimal.Binary
import ScopeMachine.Proofs.Decimal.Layout

namespace ScopeMachine.Decimal

/-- The exact value of a fraction. -/
def Fraction.toRat (value : Fraction) : ℚ :=
  (if value.negative then -1 else 1) * (value.mantissa * (2 : ℚ) ^ value.exponent)

namespace Fraction

variable {value : Fraction}

theorem denominator_pos (value : Fraction) : 0 < value.denominator :=
  Nat.pow_pos (by norm_num)

theorem numerator_pos (hmantissa : value.mantissa ≠ 0) : 0 < value.numerator :=
  Nat.mul_pos (Nat.pos_of_ne_zero hmantissa) (Nat.pow_pos (by norm_num))

/-- The magnitude is the quotient of numerator and denominator. -/
theorem toRat_eq (value : Fraction) : value.toRat =
    (if value.negative then -1 else 1) * ((value.numerator : ℚ) / value.denominator) := by
  rw [toRat, numerator, denominator, Nat.cast_mul, mul_div_assoc, pow_toNat_div]
  rfl

end Fraction

variable {count numerator denominator : ℕ}

/-- A number with an exponent, from the digits of a number in scientific form. -/
theorem exists_numeral_scientific (negative : Bool) {number : Scientific} (hcount : 0 < count)
    (hlow : 10 ^ (count - 1) ≤ number.coefficient) (hhigh : number.coefficient < 10 ^ count) :
    ∃ numeral : Numeral, numeral.WellFormed ∧ numeral.negative = negative ∧
      numeral.text = String.ofList (Reading.signText negative ++
        (trimFraction (placed (count - 1) number.coefficient) ++ exponentMark number.power)) ∧
      numeral.value = (if negative then -1 else 1) * number.value count ∧
      numeral.exponent.isSome := by
  obtain ⟨whole, fraction, htext, htrailing, hlaid⟩ :=
    trimFraction_placed (count - 1) number.coefficient
  obtain ⟨exponent, hmark, hpower, hexponent⟩ := exponentMark_eq number.power
  have hsingle := hlaid.single hlow (by rwa [Nat.sub_add_cancel hcount])
  refine ⟨⟨negative, whole, fraction, some exponent⟩, ?_, rfl, ?_, ?_, rfl⟩
  · exact ⟨hlaid.wholeDigits, hlaid.fractionDigits, hlaid.nonempty, hlaid.leading, htrailing,
      fun other hother => Option.some.inj hother ▸ hexponent, fun _ => hsingle⟩
  · rw [htext, hmark, ← List.append_assoc]
    rfl
  · have hscale : (10 : ℚ) ^ (number.power + 1 - count) =
        10 ^ number.power / 10 ^ (count - 1) := by
      rw [← zpow_natCast, ← zpow_sub₀ (by norm_num)]
      congr 1
      omega
    rw [Numeral.value, hlaid.value, Option.elim_some, hpower, Scientific.value, hscale]
    ring

/-- A number without an exponent, from its places behind the point. -/
theorem exists_numeral_positional (negative : Bool) (places units : ℕ) :
    ∃ numeral : Numeral, numeral.WellFormed ∧ numeral.negative = negative ∧
      numeral.text = String.ofList (Reading.signText negative ++
        trimFraction (placed places units)) ∧
      numeral.value = (if negative then -1 else 1) * (units / 10 ^ places) ∧
      numeral.exponent.isSome = false := by
  obtain ⟨whole, fraction, htext, htrailing, hlaid⟩ := trimFraction_placed places units
  refine ⟨⟨negative, whole, fraction, none⟩, ?_, rfl, ?_, ?_, rfl⟩
  · exact ⟨hlaid.wholeDigits, hlaid.fractionDigits, hlaid.nonempty, hlaid.leading, htrailing,
      nofun, nofun⟩
  · rw [htext, Numeral.text, Option.elim_none, List.append_nil]
  · rw [Numeral.value, hlaid.value, Option.elim_none, zpow_zero, mul_one]

/-- A positive fraction in general notation is a numeral for the number that it is rounded
to. It has an exponent just if this number is too small or too large to be written without
one. -/
theorem exists_numeral (negative : Bool) (hcount : 0 < count) (hnumerator : 0 < numerator)
    (hdenominator : 0 < denominator) :
    ∃ numeral : Numeral, numeral.WellFormed ∧ numeral.negative = negative ∧
      numeral.text = String.ofList (Reading.signText negative ++
        generalText count numerator denominator) ∧
      numeral.value = (if negative then -1 else 1) *
        (Scientific.round count numerator denominator).value count ∧
      (numeral.exponent.isSome ↔
        (Scientific.round count numerator denominator).power < -4 ∨
          (count : ℤ) ≤ (Scientific.round count numerator denominator).power) := by
  have hnumber := Scientific.represents_round hcount hnumerator hdenominator
  unfold generalText
  generalize Scientific.round count numerator denominator = number at *
  dsimp only
  split
  · rename_i hexponent
    obtain ⟨numeral, hformed, hsign, htext, hvalue, hsome⟩ :=
      exists_numeral_scientific negative hcount hnumber.low hnumber.high
    exact ⟨numeral, hformed, hsign, htext, hvalue, iff_of_true hsome hexponent⟩
  · rename_i hplain
    have hplaces : (((count : ℤ) - 1 - number.power).toNat : ℤ) = count - 1 - number.power := by
      omega
    generalize ((count : ℤ) - 1 - number.power).toNat = places at *
    -- The second rounding goes to the digits of the first one.
    have hunits : divideToEven (numerator * Nat.pow 10 places) denominator =
        number.coefficient := by
      have hagain := nearestEven_divideToEven (numerator * Nat.pow 10 places) hdenominator
      have hsame : ((numerator * Nat.pow 10 places : ℕ) : ℚ) / denominator =
          (numerator : ℚ) / denominator * 10 ^ places := by
        rw [Nat.cast_mul, mul_div_right_comm]
        exact congrArg _ (Nat.cast_pow 10 places)
      rw [hsame] at hagain
      exact_mod_cast hagain.unique (hnumber.places places hplaces)
    have hvalue : number.value count = number.coefficient / 10 ^ places := by
      have hpower : number.power + 1 - count = -(places : ℤ) := by omega
      rw [Scientific.value, hpower, zpow_neg, zpow_natCast, div_eq_mul_inv]
    obtain ⟨numeral, hformed, hsign, htext, hshown, hnone⟩ :=
      exists_numeral_positional negative places number.coefficient
    refine ⟨numeral, hformed, hsign, ?_, ?_, ?_⟩
    · rw [htext, fixedText, hunits]
    · rw [hshown, hvalue]
    · rw [hnone]
      exact iff_of_false Bool.false_ne_true hplain

/-- General notation shows the number that rounding to the significant digits gives. Of a
number other than zero there is one such number, whatever the precision. The text is a
numeral for it, and for no other number. It has an exponent just if the power of ten of the
rounded number is below the fourth place after the point or not below the precision, and a
sign just if the number is negative. -/
theorem generalText_denotes_rounded (number : Binary64) (precision : ℕ) {value : Fraction}
    (hfinite : number.reading = .finite value) (hmantissa : value.mantissa ≠ 0) :
    ∃ r : ℚ, (∀ s, RoundsTo (max precision 1) value.toRat s ↔ s = r) ∧
      ∃ numeral : Numeral,
        (∀ other : Numeral, other.WellFormed ∧
          other.text = number.reading.generalText precision ↔ other = numeral) ∧
        numeral.value = r ∧
        (numeral.exponent.isSome ↔
          Int.log 10 |r| < -4 ∨ ((max precision 1 : ℕ) : ℤ) ≤ Int.log 10 |r|) ∧
        (numeral.negative ↔ value.toRat < 0) := by
  have hcount : 0 < max precision 1 := by omega
  have hnumerator := Fraction.numerator_pos hmantissa
  have hdenominator := value.denominator_pos
  have hpositive : (0 : ℚ) < (value.numerator : ℚ) / value.denominator := by positivity
  have hnumber := Scientific.represents_round hcount hnumerator hdenominator
  obtain ⟨numeral, hformed, hsign, htext, hvalue, hexponent⟩ :=
    exists_numeral value.negative hcount hnumerator hdenominator
  generalize Scientific.round (max precision 1) value.numerator value.denominator = rounded at *
  have hrounded : 0 < rounded.value (max precision 1) := by
    have hcoefficient := lt_of_lt_of_le (Nat.pow_pos (by norm_num)) hnumber.low
    rw [Scientific.value]
    positivity
  have htexts : numeral.text = number.reading.generalText precision := by
    rw [htext, hfinite, Reading.generalText, if_neg hmantissa]
  have hrounds : RoundsTo (max precision 1) value.toRat numeral.value := by
    rw [hvalue, Fraction.toRat_eq]
    cases value.negative with
    | false => simpa using hnumber.rounds
    | true => simpa using hnumber.rounds.neg
  have hmagnitude : Int.log 10 |numeral.value| = rounded.power := by
    rw [hvalue, abs_mul, abs_of_pos hrounded,
      ← Scientific.log_value hcount hnumber.low hnumber.high]
    cases value.negative <;> simp
  refine ⟨numeral.value, fun s => ⟨hrounds.unique, fun hs => hs ▸ hrounds⟩, numeral, fun other =>
    ⟨fun hother => ?_, fun hother => hother ▸ ⟨hformed, htexts⟩⟩, rfl, ?_, ?_⟩
  · exact Numeral.text_injective hother.1 hformed (hother.2.trans htexts.symm)
  · rw [hmagnitude]
    exact hexponent
  · rw [hsign, Fraction.toRat_eq]
    cases value.negative <;> simp [hpositive, hpositive.le]

/-- A number just below ten, which six digits cannot tell from ten: rounding carries. -/
def belowTen : Binary64 := ⟨0x4023ffffff29407a⟩

theorem generalText_denotes_rounded_belowTen :
    ∃ value : Fraction, belowTen.reading = .finite value ∧ value.mantissa ≠ 0 ∧
      belowTen.reading.generalText 6 = "10" ∧ RoundsTo 6 value.toRat 10 := by
  have hfinite : belowTen.reading = .finite ⟨false, 5629499520139386, -49⟩ := by decide
  have hmantissa : 5629499520139386 ≠ 0 := by decide
  have htext : belowTen.reading.generalText 6 = "10" := by decide
  obtain ⟨r, hrounds, numeral, hreads, hvalue, -, -⟩ :=
    generalText_denotes_rounded belowTen 6 hfinite hmantissa
  let ten : Numeral := ⟨false, ['1', '0'], [], none⟩
  have hformed : ten.WellFormed :=
    ⟨allDigits_digits 10, nofun, by decide, by decide, by decide, nofun, nofun⟩
  have hten : ten = numeral := (hreads ten).mp ⟨hformed, htext.symm⟩
  have hr : (10 : ℚ) = r := by
    have hdigits : digitsValue (ten.whole ++ ten.fraction) = 10 := rfl
    rw [← hvalue, ← hten, Numeral.value, hdigits]
    norm_num [ten]
  exact ⟨_, hfinite, hmantissa, htext, (hrounds 10).mpr hr⟩

end ScopeMachine.Decimal
