/-
# Decimal numerals

A numeral is a sign, digits in front of the point and digits behind it, and maybe an
exponent. What a numeral denotes is read off these parts. The form that numbers are shown in
has no needless zeros: none in front of the whole part, none at the end of the fraction. Its
parts can be read off the text, so that a text denotes one number.
-/

import Mathlib
import ScopeMachine.Decimal.General

namespace ScopeMachine.Decimal

/-- All of a text are decimal digits. -/
def AllDigits (text : List Char) : Prop :=
  ∀ c ∈ text, c.isDigit

/-- The number that digits stand for. -/
def digitsValue (text : List Char) : ℕ :=
  Nat.ofDigitChars 10 text 0

/-- An exponent, with its sign. -/
structure Exponent where
  negative : Bool
  digits : List Char
deriving DecidableEq

/-- A number in decimal notation. -/
structure Numeral where
  negative : Bool
  /-- The digits in front of the point. -/
  whole : List Char
  /-- The digits behind the point; without any, there is no point. -/
  fraction : List Char
  exponent : Option Exponent
deriving DecidableEq

namespace Exponent

def text (exponent : Exponent) : List Char :=
  'e' :: (if exponent.negative then '-' else '+') :: exponent.digits

def value (exponent : Exponent) : ℤ :=
  if exponent.negative then -(digitsValue exponent.digits : ℤ) else digitsValue exponent.digits

/-- An exponent has at least two digits, and no zero in front of more. -/
structure WellFormed (exponent : Exponent) : Prop where
  digits : AllDigits exponent.digits
  two : 2 ≤ exponent.digits.length
  leading : 2 < exponent.digits.length → exponent.digits.head? ≠ some '0'

end Exponent

/-- Digits in front of a point and behind it. -/
def pointed (whole fraction : List Char) : List Char :=
  whole ++ if fraction = [] then [] else '.' :: fraction

namespace Numeral

def text (numeral : Numeral) : String :=
  String.ofList (Reading.signText numeral.negative ++ pointed numeral.whole numeral.fraction ++
    numeral.exponent.elim [] Exponent.text)

/-- The number that is denoted. -/
def value (numeral : Numeral) : ℚ :=
  (if numeral.negative then -1 else 1) *
    (digitsValue (numeral.whole ++ numeral.fraction) / 10 ^ numeral.fraction.length) *
    10 ^ numeral.exponent.elim 0 Exponent.value

/-- The form that numbers are shown in. -/
structure WellFormed (numeral : Numeral) : Prop where
  whole : AllDigits numeral.whole
  fraction : AllDigits numeral.fraction
  nonempty : numeral.whole ≠ []
  /-- No zero is in front of other digits of the whole part. -/
  leading : numeral.whole.head? = some '0' → numeral.whole = ['0']
  /-- A fraction does not end with a zero. -/
  trailing : numeral.fraction.getLast? ≠ some '0'
  exponent : ∀ exponent, numeral.exponent = some exponent → exponent.WellFormed
  /-- With an exponent, one digit other than zero is in front of the point. -/
  scientific : numeral.exponent.isSome → numeral.whole.length = 1 ∧ numeral.whole ≠ ['0']

end Numeral

/-! ## The parts of a text -/

/-- Digits end where something else begins. -/
theorem AllDigits.append_inj {first second : List Char} {after later : List Char}
    (hfirst : AllDigits first) (hsecond : AllDigits second)
    (hafter : ∀ c, after.head? = some c → ¬ c.isDigit)
    (hlater : ∀ c, later.head? = some c → ¬ c.isDigit)
    (hsame : first ++ after = second ++ later) : first = second ∧ after = later := by
  have hdigits {text rest : List Char} (htext : AllDigits text)
      (hrest : ∀ c, rest.head? = some c → ¬ c.isDigit) :
      (text ++ rest).takeWhile Char.isDigit = text := by
    rw [List.takeWhile_append_of_pos htext]
    cases rest with
    | nil => simp
    | cons c others => rw [List.takeWhile_cons_of_neg (hrest c rfl), List.append_nil]
  have hfirsts : first = second := by
    rw [← hdigits hfirst hafter, hsame, hdigits hsecond hlater]
  subst hfirsts
  exact ⟨rfl, List.append_cancel_left hsame⟩

theorem Exponent.text_injective {first second : Exponent} (hsame : first.text = second.text) :
    first = second := by
  obtain ⟨firstNegative, firstDigits⟩ := first
  obtain ⟨secondNegative, secondDigits⟩ := second
  simp only [Exponent.text, List.cons.injEq, true_and] at hsame
  obtain ⟨hsign, rfl⟩ := hsame
  cases firstNegative <;> cases secondNegative <;> simp_all

/-- An exponent or nothing is no digit and no point. -/
theorem head?_exponent (exponent : Option Exponent) (c : Char)
    (hc : (exponent.elim [] Exponent.text).head? = some c) : c = 'e' := by
  cases exponent with
  | none => cases hc
  | some exponent =>
      cases hc
      rfl

theorem elim_text_injective {first second : Option Exponent}
    (hsame : first.elim [] Exponent.text = second.elim [] Exponent.text) : first = second := by
  cases first with
  | none => cases second with
    | none => rfl
    | some second => cases hsame
  | some first => cases second with
    | none => cases hsame
    | some second => rw [Exponent.text_injective hsame]

/-- What follows the whole part begins with a point or an exponent. -/
theorem head?_fraction {fraction : List Char} {exponent : Option Exponent} {c : Char}
    (hc : ((if fraction = [] then [] else '.' :: fraction) ++
      exponent.elim [] Exponent.text).head? = some c) : c = if fraction = [] then 'e' else '.' := by
  split at hc
  · rename_i hnone
    rw [if_pos hnone]
    exact head?_exponent exponent c hc
  · rename_i hsome
    rw [if_neg hsome]
    cases hc
    rfl

/-- What follows the whole part determines the fraction and the exponent. -/
theorem fraction_injective {first second : List Char} {before after : Option Exponent}
    (hfirst : AllDigits first) (hsecond : AllDigits second)
    (hsame : (if first = [] then [] else '.' :: first) ++ before.elim [] Exponent.text =
      (if second = [] then [] else '.' :: second) ++ after.elim [] Exponent.text) :
    first = second ∧ before = after := by
  have hends (exponent : Option Exponent) (c : Char)
      (hc : (exponent.elim [] Exponent.text).head? = some c) : ¬ c.isDigit := by
    rw [head?_exponent exponent c hc]
    decide
  have hheads := congrArg List.head? hsame
  by_cases hnone : first = []
  · by_cases hother : second = []
    · rw [if_pos hnone, if_pos hother] at hsame
      exact ⟨hnone.trans hother.symm, elim_text_injective hsame⟩
    · have hpoint := head?_fraction (hheads.trans (by rw [if_neg hother]; rfl))
      rw [if_pos hnone] at hpoint
      exact absurd hpoint (by decide)
  · by_cases hother : second = []
    · have hpoint := head?_fraction (hheads.symm.trans (by rw [if_neg hnone]; rfl))
      rw [if_pos hother] at hpoint
      exact absurd hpoint (by decide)
    · rw [if_neg hnone, if_neg hother] at hsame
      obtain ⟨hfractions, hexponents⟩ := hfirst.append_inj hsecond (hends before) (hends after)
        (List.cons.inj hsame).2
      exact ⟨hfractions, elim_text_injective hexponents⟩

/-- A text without a sign begins with a digit. -/
theorem Numeral.WellFormed.head?_pointed {numeral : Numeral} (hnumeral : numeral.WellFormed)
    (rest : List Char) : (pointed numeral.whole numeral.fraction ++ rest).head? ≠ some '-' := by
  obtain ⟨c, others, hwhole⟩ := List.exists_cons_of_ne_nil hnumeral.nonempty
  have hdigit : c.isDigit := hnumeral.whole c (hwhole ▸ List.mem_cons_self)
  rw [pointed, hwhole]
  rintro hminus
  cases hminus
  exact absurd hdigit (by decide)

/-- A text denotes one number: the numeral can be read off. -/
theorem Numeral.text_injective {first second : Numeral} (hfirst : first.WellFormed)
    (hsecond : second.WellFormed) (hsame : first.text = second.text) : first = second := by
  have hlists := String.ofList_injective hsame
  have hnegative : first.negative = second.negative := by
    have hheads := congrArg List.head? hlists
    cases hsign : first.negative <;> cases hother : second.negative
    · rfl
    · rw [hsign, hother] at hheads
      exact absurd hheads (hfirst.head?_pointed _)
    · rw [hsign, hother] at hheads
      exact absurd hheads.symm (hsecond.head?_pointed _)
    · rfl
  rw [hnegative, List.append_assoc, List.append_assoc] at hlists
  have hunsigned := List.append_cancel_left hlists
  rw [pointed, pointed, List.append_assoc, List.append_assoc] at hunsigned
  have hends (numeral : Numeral) (c : Char)
      (hc : ((if numeral.fraction = [] then [] else '.' :: numeral.fraction) ++
        numeral.exponent.elim [] Exponent.text).head? = some c) : ¬ c.isDigit := by
    rw [head?_fraction hc]
    split <;> decide
  obtain ⟨hwhole, hrest⟩ :=
    hfirst.whole.append_inj hsecond.whole (hends first) (hends second) hunsigned
  obtain ⟨hfraction, hexponent⟩ := fraction_injective hfirst.fraction hsecond.fraction hrest
  obtain ⟨_, _, _, _⟩ := first
  obtain ⟨_, _, _, _⟩ := second
  simp_all

end ScopeMachine.Decimal
