/-
# Rounding to the nearest decimal

A number rounded to significant digits is the nearest multiple of one unit of its last
digit, and of two that are as near the even one. There is exactly one such multiple, and
rounding finds it. When rounding carries into the next decade, the number is so close to
the power of ten that a unit ten times as large leads to the same number; so it makes no
difference whether the unit is taken from the number or from what it was rounded to.
-/

import Mathlib
import ScopeMachine.Decimal.Rounding

namespace ScopeMachine.Decimal

/-! ## Nearest integers -/

/-- An integer nearest to a number; one that is not alone in this is even. -/
def NearestEven (q : ℚ) (n : ℤ) : Prop :=
  |q - n| ≤ 1 / 2 ∧ (|q - n| = 1 / 2 → Even n)

namespace NearestEven

variable {q : ℚ} {m n : ℤ}

/-- Of two nearest integers, neither is below the other. -/
theorem le (hm : NearestEven q m) (hn : NearestEven q n) : n ≤ m := by
  by_contra hless
  have hgap : (m : ℚ) + 1 ≤ n := by exact_mod_cast not_le.mp hless
  obtain ⟨hmlow, hmhigh⟩ := abs_le.mp hm.1
  obtain ⟨hnlow, hnhigh⟩ := abs_le.mp hn.1
  have hhalf : q - m = 1 / 2 := by linarith
  have hother : q - n = -(1 / 2) := by linarith
  have hnext : n = m + 1 := by
    have hcast : (n : ℚ) = (m + 1 : ℤ) := by
      push_cast
      linarith
    exact_mod_cast hcast
  have hevenm : Even m := hm.2 (by rw [hhalf]; norm_num)
  have hevenn : Even n := hn.2 (by rw [hother]; norm_num)
  rw [hnext] at hevenn
  exact (Int.even_add_one.mp hevenn) hevenm

/-- There is only one such integer. -/
theorem unique (hm : NearestEven q m) (hn : NearestEven q n) : m = n :=
  le_antisymm (hn.le hm) (hm.le hn)

theorem neg (hn : NearestEven q n) : NearestEven (-q) (-n) := by
  have hsame : |-q - ((-n : ℤ) : ℚ)| = |q - n| := by
    rw [← abs_neg]
    congr 1
    push_cast
    ring
  rw [NearestEven, hsame, even_neg]
  exact hn

/-- An integer below a number is not above the nearest one. -/
theorem le_of_le (hn : NearestEven q n) (hm : (m : ℚ) ≤ q) : m ≤ n := by
  by_contra hless
  have hgap : (n : ℚ) + 1 ≤ m := by exact_mod_cast not_le.mp hless
  have hhigh := (abs_le.mp hn.1).2
  linarith

theorem le_of_ge (hn : NearestEven q n) (hm : q ≤ m) : n ≤ m := by
  by_contra hless
  have hgap : (m : ℚ) + 1 ≤ n := by exact_mod_cast not_le.mp hless
  have hlow := (abs_le.mp hn.1).1
  linarith

end NearestEven

/-- Dividing gives the nearest integer. -/
theorem nearestEven_divideToEven (numerator : ℕ) {denominator : ℕ} (hpos : 0 < denominator) :
    NearestEven (numerator / denominator) (divideToEven numerator denominator) := by
  have hdenominator : (0 : ℚ) < denominator := by exact_mod_cast hpos
  have hless := Nat.mod_lt numerator hpos
  unfold divideToEven
  have hsplit : (numerator : ℚ) / denominator =
      (numerator / denominator : ℕ) + ((numerator % denominator : ℕ) : ℚ) / denominator := by
    have hdivision : (numerator : ℚ) =
        denominator * (numerator / denominator : ℕ) + (numerator % denominator : ℕ) := by
      exact_mod_cast (Nat.div_add_mod numerator denominator).symm
    rw [hdivision]
    field_simp
  rw [hsplit]
  generalize numerator / denominator = quotient
  generalize numerator % denominator = remainder at *
  have hnonneg : (0 : ℚ) ≤ (remainder : ℚ) / denominator := by positivity
  have hhalf : (remainder : ℚ) / denominator ≤ 1 / 2 ↔ 2 * remainder ≤ denominator := by
    rw [div_le_div_iff₀ hdenominator (by norm_num), one_mul, mul_comm]
    exact_mod_cast Iff.rfl
  dsimp only
  split
  · rename_i hdown
    have hnear : (remainder : ℚ) / denominator ≤ 1 / 2 := hhalf.mpr (by omega)
    rw [NearestEven]
    push_cast
    rw [add_sub_cancel_left, abs_of_nonneg hnonneg]
    refine ⟨hnear, fun htie => ?_⟩
    have htwice : 2 * remainder = denominator := by
      rw [div_eq_div_iff hdenominator.ne' (by norm_num), one_mul, mul_comm] at htie
      exact_mod_cast htie
    exact Int.even_iff.mpr (by omega)
  · rename_i hup
    have hfar : 1 / 2 ≤ (remainder : ℚ) / denominator := by
      rw [div_le_div_iff₀ (by norm_num) hdenominator, one_mul, mul_comm]
      exact_mod_cast (by omega : denominator ≤ 2 * remainder)
    have hbelow : (remainder : ℚ) / denominator < 1 := by
      rw [div_lt_one hdenominator]
      exact_mod_cast hless
    have hdistance : |(quotient : ℚ) + (remainder : ℚ) / denominator -
        (((quotient + 1 : ℕ) : ℤ) : ℚ)| = 1 - (remainder : ℚ) / denominator := by
      push_cast
      rw [abs_of_nonpos (by linarith)]
      ring
    rw [NearestEven, hdistance]
    refine ⟨by linarith, fun htie => ?_⟩
    have hle : 2 * remainder ≤ denominator := hhalf.mp (by linarith)
    exact Int.even_iff.mpr (by omega)

/-! ## Powers of ten -/

/-- The power of ten of a number is the one between which and the next it lies. -/
theorem log_eq_of_mem {q : ℚ} {power : ℤ} (hlow : (10 : ℚ) ^ power ≤ q)
    (hhigh : q < (10 : ℚ) ^ (power + 1)) : Int.log 10 q = power := by
  have hpos : 0 < q := lt_of_lt_of_le (by positivity) hlow
  have hbase : 1 < 10 := by norm_num
  have hle : power ≤ Int.log 10 q :=
    (Int.zpow_le_iff_le_log hbase hpos).mp (by exact_mod_cast hlow)
  have hless : Int.log 10 q < power + 1 :=
    (Int.lt_zpow_iff_log_lt hbase hpos).mp (by exact_mod_cast hhigh)
  omega

/-- Counting stops as soon as the fraction has reached one. -/
theorem decadesBelowOne_spec (numerator : ℕ) {denominator limit : ℕ}
    (hlimit : denominator ≤ numerator * 10 ^ limit) :
    denominator ≤ numerator * 10 ^ decadesBelowOne numerator denominator limit ∧
      ∀ k < decadesBelowOne numerator denominator limit, numerator * 10 ^ k < denominator := by
  induction limit generalizing numerator with
  | zero => exact ⟨hlimit, fun k hk => absurd hk (Nat.not_lt_zero k)⟩
  | succ limit ih =>
      rw [decadesBelowOne]
      split
      · rename_i hreached
        exact ⟨by simpa using hreached, fun k hk => absurd hk (Nat.not_lt_zero k)⟩
      · rename_i hbelow
        obtain ⟨hstop, hearlier⟩ := ih (numerator * 10) (by rwa [mul_assoc, ← pow_succ'])
        rw [pow_succ', ← mul_assoc]
        refine ⟨hstop, fun k hk => ?_⟩
        cases k with
        | zero => simpa using hbelow
        | succ k =>
            rw [pow_succ', ← mul_assoc]
            exact hearlier k (Nat.lt_of_succ_lt_succ hk)

/-- A positive number has one digit more than its power of ten. -/
theorem length_digits {n : ℕ} (hn : 0 < n) : (digits n).length = Nat.log 10 n + 1 := by
  refine le_antisymm ?_ ?_
  · exact (Nat.length_toDigits_le_iff (by norm_num) (Nat.succ_pos _)).mpr
      (Nat.lt_pow_succ_log_self (by norm_num) n)
  · by_contra hshort
    have hle : (digits n).length ≤ Nat.log 10 n := by omega
    have hlog : 0 < Nat.log 10 n := lt_of_lt_of_le Nat.length_toDigits_pos hle
    have hless := (Nat.length_toDigits_le_iff (by norm_num) hlog).mp hle
    exact absurd (Nat.pow_log_le_self 10 hn.ne') (not_le.mpr hless)

/-- The power of ten that a number is written with is its own. -/
theorem leadingPower_eq_log {numerator denominator : ℕ} (hnumerator : 0 < numerator)
    (hdenominator : 0 < denominator) :
    leadingPower numerator denominator = Int.log 10 ((numerator : ℚ) / denominator) := by
  have hpos : (0 : ℚ) < denominator := by exact_mod_cast hdenominator
  unfold leadingPower
  split
  · rename_i hlarge
    have hone : 1 ≤ (numerator : ℚ) / denominator := by
      rw [one_le_div hpos]
      exact_mod_cast hlarge
    rw [Int.log_of_one_le_right _ hone, Nat.floor_div_eq_div,
      length_digits (Nat.div_pos hlarge hdenominator)]
    push_cast
    ring
  · rename_i hsmall
    have hlimit : denominator ≤ numerator * 10 ^ (denominator.log2 + 1) := by
      calc denominator ≤ 2 ^ (denominator.log2 + 1) := Nat.lt_log2_self.le
        _ ≤ 10 ^ (denominator.log2 + 1) := Nat.pow_le_pow_left (by norm_num) _
        _ ≤ numerator * 10 ^ (denominator.log2 + 1) := Nat.le_mul_of_pos_left _ hnumerator
    obtain ⟨hstop, hearlier⟩ := decadesBelowOne_spec numerator hlimit
    generalize decadesBelowOne numerator denominator (denominator.log2 + 1) = k at *
    cases k with
    | zero => exact absurd (by simpa using hstop) hsmall
    | succ k =>
        symm
        apply log_eq_of_mem
        · rw [zpow_neg, zpow_natCast, ← one_div, div_le_div_iff₀ (by positivity) hpos, one_mul]
          exact_mod_cast hstop
        · have hpower : -((k + 1 : ℕ) : ℤ) + 1 = -(k : ℤ) := by
            push_cast
            ring
          rw [hpower, zpow_neg, zpow_natCast, ← one_div, div_lt_div_iff₀ hpos (by positivity),
            one_mul]
          exact_mod_cast hearlier k (Nat.lt_succ_self k)

/-- A power with an exponent of either sign is a quotient of powers. -/
theorem pow_toNat_div (base : ℕ) (exponent : ℤ) :
    ((Nat.pow base exponent.toNat : ℕ) : ℚ) / ((Nat.pow base (-exponent).toNat : ℕ) : ℚ) =
      (base : ℚ) ^ exponent := by
  obtain ⟨n, rfl | rfl⟩ := exponent.eq_nat_or_neg <;> simp

/-! ## Significant digits -/

/-- One unit of the last of `count` significant digits. -/
def unit (count : ℕ) (v : ℚ) : ℚ :=
  (10 : ℚ) ^ (Int.log 10 |v| + 1 - count)

/-- A number rounded to significant digits, ties to even. -/
def RoundsTo (count : ℕ) (v r : ℚ) : Prop :=
  ∃ n : ℤ, NearestEven (v / unit count v) n ∧ r = n * unit count v

theorem unit_pos (count : ℕ) (v : ℚ) : 0 < unit count v := by
  unfold unit
  positivity

theorem unit_neg (count : ℕ) (v : ℚ) : unit count (-v) = unit count v := by
  rw [unit, abs_neg, unit]

namespace RoundsTo

variable {count : ℕ} {v r s : ℚ}

/-- A number is rounded in one way. -/
theorem unique (hr : RoundsTo count v r) (hs : RoundsTo count v s) : s = r := by
  obtain ⟨m, hm, rfl⟩ := hr
  obtain ⟨n, hn, rfl⟩ := hs
  rw [hm.unique hn]

theorem neg (hr : RoundsTo count v r) : RoundsTo count (-v) (-r) := by
  obtain ⟨n, hn, rfl⟩ := hr
  refine ⟨-n, ?_, ?_⟩
  · rw [unit_neg, neg_div]
    exact hn.neg
  · rw [unit_neg]
    push_cast
    ring

end RoundsTo

namespace Scientific

/-- The value of a decimal number with `count` digits. -/
def value (count : ℕ) (number : Scientific) : ℚ :=
  number.coefficient * (10 : ℚ) ^ (number.power + 1 - count)

/-- What a number in scientific form has to be of a positive value: the value rounded, with
just as many digits, and as far as it has places behind the point, the value rounded to
these places too. -/
structure Represents (number : Scientific) (count : ℕ) (v : ℚ) : Prop where
  rounds : RoundsTo count v (number.value count)
  low : 10 ^ (count - 1) ≤ number.coefficient
  high : number.coefficient < 10 ^ count
  places : ∀ places : ℕ, (places : ℤ) = count - 1 - number.power →
    NearestEven (v * 10 ^ places) number.coefficient

/-- The power of ten of a number in scientific form is that of its value. -/
theorem log_value {number : Scientific} {count : ℕ} (hcount : 0 < count)
    (hlow : 10 ^ (count - 1) ≤ number.coefficient) (hhigh : number.coefficient < 10 ^ count) :
    Int.log 10 (number.value count) = number.power := by
  have hunit : (0 : ℚ) < (10 : ℚ) ^ (number.power + 1 - count) := by positivity
  have hscale (exponent : ℕ) : (10 : ℚ) ^ exponent * (10 : ℚ) ^ (number.power + 1 - count) =
      (10 : ℚ) ^ (number.power + 1 - count + exponent) := by
    rw [← zpow_natCast, ← zpow_add₀ (by norm_num), add_comm]
  apply log_eq_of_mem
  · have hle : ((10 : ℚ) ^ (count - 1)) ≤ number.coefficient := by exact_mod_cast hlow
    have hpower : number.power + 1 - count + (count - 1 : ℕ) = number.power := by omega
    calc (10 : ℚ) ^ number.power
        = (10 : ℚ) ^ (count - 1) * (10 : ℚ) ^ (number.power + 1 - count) := by
          rw [hscale, hpower]
      _ ≤ number.value count := mul_le_mul_of_nonneg_right hle hunit.le
  · have hless : (number.coefficient : ℚ) < (10 : ℚ) ^ count := by exact_mod_cast hhigh
    have hpower : number.power + 1 - count + count = number.power + 1 := by ring
    calc number.value count
        < (10 : ℚ) ^ count * (10 : ℚ) ^ (number.power + 1 - count) :=
          mul_lt_mul_of_pos_right hless hunit
      _ = (10 : ℚ) ^ (number.power + 1) := by rw [hscale, hpower]

/-- Scaling a fraction to units of a power of ten. -/
theorem scaled_eq (numerator denominator : ℕ) (scale : ℤ) :
    ((numerator * Nat.pow 10 scale.toNat : ℕ) : ℚ) /
      ((denominator * Nat.pow 10 (-scale).toNat : ℕ) : ℚ) =
      (numerator : ℚ) / denominator * (10 : ℚ) ^ scale := by
  rw [Nat.cast_mul, Nat.cast_mul, mul_div_mul_comm, pow_toNat_div]
  rfl

/-- A number in units of its last digit has just the digits that it is rounded to. -/
theorem div_unit_mem {count : ℕ} {q : ℚ} (hcount : 0 < count) (hq : 0 < q) :
    (10 : ℚ) ^ (count - 1) ≤ q / unit count q ∧ q / unit count q < (10 : ℚ) ^ count := by
  have hlow : (10 : ℚ) ^ Int.log 10 q ≤ q := by
    exact_mod_cast Int.zpow_log_le_self (by norm_num : 1 < 10) hq
  have hhigh : q < (10 : ℚ) ^ (Int.log 10 q + 1) := by
    exact_mod_cast Int.lt_zpow_succ_log_self (by norm_num : 1 < 10) q
  have hscale (exponent : ℕ) : (10 : ℚ) ^ exponent * unit count q =
      (10 : ℚ) ^ (Int.log 10 q + 1 - count + exponent) := by
    rw [unit, abs_of_pos hq, ← zpow_natCast, ← zpow_add₀ (by norm_num), add_comm]
  rw [le_div_iff₀ (unit_pos _ _), div_lt_iff₀ (unit_pos _ _), hscale, hscale]
  have hfirst : Int.log 10 q + 1 - count + (count - 1 : ℕ) = Int.log 10 q := by omega
  have hnext : Int.log 10 q + 1 - count + count = Int.log 10 q + 1 := by ring
  rw [hfirst, hnext]
  exact ⟨hlow, hhigh⟩

/-- A number that is rounded up to a power of ten is rounded up to it in larger units too. -/
theorem nearestEven_of_carry {x : ℚ} {n : ℕ} (hx : NearestEven x ((10 ^ (n + 1) : ℕ) : ℤ))
    (hless : x < (10 : ℚ) ^ (n + 1)) : NearestEven (x / 10) ((10 ^ n : ℕ) : ℤ) := by
  obtain ⟨hlow, -⟩ := abs_le.mp hx.1
  push_cast at hlow
  have hpower : (10 : ℚ) ^ (n + 1) = 10 * 10 ^ n := pow_succ' 10 n
  have hdistance : |x / 10 - (((10 ^ n : ℕ) : ℤ) : ℚ)| < 1 / 2 := by
    push_cast
    rw [abs_lt]
    constructor <;> linarith
  exact ⟨hdistance.le, fun htie => absurd htie hdistance.ne⟩

section Represents

variable {count : ℕ} {q : ℚ} (hcount : 0 < count) (hq : 0 < q)

include hcount hq

/-- A value that is rounded without a carry keeps its power of ten. -/
theorem represents_of_kept {rounded : ℕ} (hnearest : NearestEven (q / unit count q) rounded)
    (hkept : rounded ≠ 10 ^ count) :
    Represents ⟨rounded, Int.log 10 q⟩ count q where
  rounds := ⟨rounded, hnearest, by rw [value, unit, abs_of_pos hq]; rfl⟩
  low := by
    have hlow := (div_unit_mem hcount hq).1
    exact_mod_cast hnearest.le_of_le (m := (10 ^ (count - 1) : ℕ)) (by exact_mod_cast hlow)
  high := by
    have hhigh := (div_unit_mem hcount hq).2
    have hle : rounded ≤ 10 ^ count := by
      exact_mod_cast hnearest.le_of_ge (m := (10 ^ count : ℕ)) (by exact_mod_cast hhigh.le)
    exact lt_of_le_of_ne hle hkept
  places places hplaces := by
    have hsame : q * 10 ^ places = q / unit count q := by
      have hpower : -(places : ℤ) = Int.log 10 q + 1 - count := by
        dsimp only at hplaces
        omega
      rw [unit, abs_of_pos hq, ← hpower, zpow_neg, zpow_natCast, div_inv_eq_mul]
    rw [hsame]
    exact hnearest

/-- A value that is rounded with a carry is rounded to the next power of ten. -/
theorem represents_of_carry (hnearest : NearestEven (q / unit count q) ((10 ^ count : ℕ) : ℤ)) :
    Represents ⟨10 ^ (count - 1), Int.log 10 q + 1⟩ count q where
  rounds := by
    refine ⟨_, hnearest, ?_⟩
    have hpower : Int.log 10 q + 1 + 1 - count = 1 + (Int.log 10 q + 1 - count) := by ring
    have hcoefficient : (10 : ℚ) ^ count = 10 ^ (count - 1) * 10 := by
      rw [← pow_succ, Nat.sub_add_cancel hcount]
    rw [value, unit, abs_of_pos hq]
    push_cast
    rw [hpower, zpow_add₀ (by norm_num), zpow_one, hcoefficient, mul_assoc]
  low := le_rfl
  high := Nat.pow_lt_pow_right (by norm_num) (Nat.sub_lt hcount one_pos)
  places places hplaces := by
    obtain ⟨n, rfl⟩ : ∃ n, count = n + 1 := Nat.exists_eq_add_one.mpr hcount
    have hless := (div_unit_mem hcount hq).2
    have hsame : q * 10 ^ places = q / unit (n + 1) q / 10 := by
      have hpower : Int.log 10 q + 1 - (n + 1 : ℕ) = -(places : ℤ) + -1 := by
        dsimp only at hplaces
        omega
      rw [unit, abs_of_pos hq, hpower, zpow_add₀ (by norm_num), zpow_neg, zpow_natCast,
        zpow_neg_one, div_mul_eq_div_div, div_inv_eq_mul, div_inv_eq_mul,
        mul_div_cancel_right₀ _ (by norm_num)]
    rw [hsame]
    exact nearestEven_of_carry hnearest hless

end Represents

/-- Rounding gives the number in scientific form. Where it carries into the next decade, the
value is at most half a unit below a power of ten; in units ten times as large, this power
is as near as it can be. -/
theorem represents_round {count numerator denominator : ℕ} (hcount : 0 < count)
    (hnumerator : 0 < numerator) (hdenominator : 0 < denominator) :
    (round count numerator denominator).Represents count (numerator / denominator) := by
  have hq : (0 : ℚ) < (numerator : ℚ) / denominator := by positivity
  unfold round
  rw [leadingPower_eq_log hnumerator hdenominator]
  dsimp only
  generalize hlog : Int.log 10 ((numerator : ℚ) / denominator) = power
  have hpositive : 0 < denominator * Nat.pow 10 (-((count : ℤ) - 1 - power)).toNat :=
    Nat.mul_pos hdenominator (Nat.pow_pos (by norm_num))
  have hnearest := nearestEven_divideToEven
    (numerator * Nat.pow 10 ((count : ℤ) - 1 - power).toNat) hpositive
  have hunit : (10 : ℚ) ^ ((count : ℤ) - 1 - power) =
      (unit count ((numerator : ℚ) / denominator))⁻¹ := by
    rw [unit, abs_of_pos hq, hlog, ← zpow_neg]
    congr 1
    ring
  rw [scaled_eq, hunit, ← div_eq_mul_inv] at hnearest
  subst hlog
  split
  · rename_i hcarry
    rw [hcarry] at hnearest
    exact represents_of_carry hcount hq hnearest
  · rename_i hkept
    exact represents_of_kept hcount hq hnearest hkept

end Scientific

end ScopeMachine.Decimal
