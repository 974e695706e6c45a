/-
# Numbers laid out in digits

A number of units of its last place is laid out as digits with a point among them, with
zeros in front if there are too few. Trimming takes zeros from the end of the fraction,
which changes the text and not the number. What is left is the shown form of a numeral.
-/

import ScopeMachine.Proofs.Decimal.Nearest
import ScopeMachine.Proofs.Decimal.Numerals

namespace ScopeMachine.Decimal

/-! ## Digits -/

theorem allDigits_digits (n : ℕ) : AllDigits (digits n) := fun _ hc =>
  Nat.isDigit_of_mem_toDigits (by norm_num) (by norm_num) hc

@[simp]
theorem digitsValue_digits (n : ℕ) : digitsValue (digits n) = n :=
  Nat.ofDigitChars_ten_toDigits

/-- Zeros in front change nothing. -/
theorem digitsValue_zeros_append (count : ℕ) (text : List Char) :
    digitsValue (List.replicate count '0' ++ text) = digitsValue text := by
  rw [digitsValue, Nat.ofDigitChars_append, Nat.ofDigitChars_replicate_zero, mul_zero, digitsValue]

/-- Every zero at the end is a factor of ten. -/
theorem digitsValue_append_zeros (text : List Char) (count : ℕ) :
    digitsValue (text ++ List.replicate count '0') = 10 ^ count * digitsValue text := by
  rw [digitsValue, Nat.ofDigitChars_append, Nat.ofDigitChars_replicate_zero, digitsValue]

/-- A positive number does not begin with a zero. -/
theorem head?_digits {n : ℕ} (hn : 0 < n) : (digits n).head? ≠ some '0' := by
  induction n using Nat.strongRecOn with
  | ind n ih =>
      rw [digits, Nat.toDigits_eq_if (by norm_num)]
      split
      · rename_i hless
        interval_cases n <;> decide
      · rename_i hmore
        have hquotient : 0 < n / 10 := by omega
        rw [List.head?_append_of_ne_nil _ Nat.toDigits_ne_nil]
        exact ih (n / 10) (by omega) hquotient

/-! ## Trimming -/

theorem dropTrailing_eq (c : Char) (text : List Char) :
    dropTrailing c text = text.rdropWhile (· == c) := rfl

/-- What is dropped are repetitions. -/
theorem exists_eq_dropTrailing (c : Char) (text : List Char) :
    ∃ count, text = dropTrailing c text ++ List.replicate count c := by
  have hall : ∀ d ∈ text.rtakeWhile (· == c), d = c := by
    intro d hd
    simpa using List.mem_rtakeWhile_imp hd
  refine ⟨(text.rtakeWhile (· == c)).length, ?_⟩
  rw [← List.eq_replicate_of_mem hall, dropTrailing_eq, List.rdropWhile_append_rtakeWhile]

theorem getLast?_dropTrailing (c : Char) (text : List Char) :
    (dropTrailing c text).getLast? ≠ some c := by
  intro hlast
  have hne : text.rdropWhile (· == c) ≠ [] := by
    rintro hnil
    rw [dropTrailing_eq, hnil] at hlast
    cases hlast
  rw [dropTrailing_eq, List.getLast?_eq_some_getLast hne, Option.some_inj] at hlast
  exact List.rdropWhile_last_not _ _ hne (beq_iff_eq.mpr hlast)

theorem dropTrailing_of_getLast? {c : Char} {text : List Char} (htext : text.getLast? ≠ some c) :
    dropTrailing c text = text := by
  rw [dropTrailing_eq, List.rdropWhile_eq_self_iff]
  intro hne hc
  exact htext (by rw [List.getLast?_eq_some_getLast hne, beq_iff_eq.mp hc])

theorem dropTrailing_append_replicate (c : Char) (text : List Char) (count : ℕ) :
    dropTrailing c (text ++ List.replicate count c) = dropTrailing c text := by
  induction count with
  | zero => rw [List.replicate_zero, List.append_nil]
  | succ count ih =>
      rw [List.replicate_succ', ← List.append_assoc, dropTrailing_eq,
        List.rdropWhile_concat_pos (· == c) _ _ (beq_self_eq_true c)]
      exact ih

/-- Nothing is dropped from in front of another character. -/
theorem dropTrailing_append_cons {c d : Char} (hd : d ≠ c) (before text : List Char) :
    dropTrailing c (before ++ d :: text) = before ++ d :: dropTrailing c text := by
  obtain ⟨count, htext⟩ := exists_eq_dropTrailing c text
  have hlast : (before ++ d :: dropTrailing c text).getLast? ≠ some c := by
    rw [List.getLast?_append_cons, List.getLast?_cons]
    cases hkept : (dropTrailing c text).getLast? with
    | none => simpa using hd
    | some last =>
        have hother := getLast?_dropTrailing c text
        rw [hkept] at hother
        exact hother
  calc dropTrailing c (before ++ d :: text)
      = dropTrailing c ((before ++ d :: dropTrailing c text) ++ List.replicate count c) := by
        rw [List.append_assoc, List.cons_append, ← htext]
    _ = before ++ d :: dropTrailing c text := by
        rw [dropTrailing_append_replicate, dropTrailing_of_getLast? hlast]

theorem AllDigits.dropTrailing {text : List Char} (htext : AllDigits text) (c : Char) :
    AllDigits (dropTrailing c text) := fun d hd =>
  htext d ((List.rdropWhile_prefix _ _).subset hd)

theorem AllDigits.getLast?_ne {text : List Char} (htext : AllDigits text) {c : Char}
    (hc : ¬ c.isDigit) : text.getLast? ≠ some c := fun hlast =>
  hc (htext c (List.mem_of_getLast? hlast))

/-- Trimming drops zeros of the fraction. -/
theorem trimFraction_pointed {whole fraction : List Char} (hwhole : AllDigits whole)
    (hfraction : AllDigits fraction) :
    trimFraction (pointed whole fraction) = pointed whole (dropTrailing '0' fraction) := by
  have hpoint : ¬ '.'.isDigit := by decide
  unfold trimFraction pointed
  by_cases hnone : fraction = []
  · subst hnone
    have hwithout : (whole ++ []).contains '.' = false := by
      rw [List.append_nil, List.contains_eq_mem, decide_eq_false_iff_not]
      exact fun hmem => hpoint (hwhole _ hmem)
    simp only [if_true, hwithout, Bool.false_eq_true, if_false]
    rfl
  · have hwith : (whole ++ '.' :: fraction).contains '.' = true := by simp
    rw [if_neg hnone, if_pos hwith, dropTrailing_append_cons (by decide)]
    have hkept := hfraction.dropTrailing '0'
    by_cases hall : Decimal.dropTrailing '0' fraction = []
    · -- The point is at the end now.
      have hend : whole ++ ['.'] = whole ++ List.replicate 1 '.' := rfl
      rw [hall, hend, dropTrailing_append_replicate,
        dropTrailing_of_getLast? (hwhole.getLast?_ne hpoint), if_pos rfl, List.append_nil]
    · rw [if_neg hall]
      apply dropTrailing_of_getLast?
      rw [List.getLast?_append_cons, List.getLast?_cons]
      cases hlast : (Decimal.dropTrailing '0' fraction).getLast? with
      | none => exact absurd (List.getLast?_eq_none_iff.mp hlast) hall
      | some last =>
          have hother := hkept.getLast?_ne hpoint
          rw [hlast] at hother
          exact hother

/-! ## Points and exponents -/

/-- A number of units of the last of `places` decimal places in digits. -/
structure LaidOut (places units : ℕ) (whole fraction : List Char) : Prop where
  wholeDigits : AllDigits whole
  fractionDigits : AllDigits fraction
  nonempty : whole ≠ []
  leading : whole.head? = some '0' → whole = ['0']
  value : (digitsValue (whole ++ fraction) : ℚ) / 10 ^ fraction.length = units / 10 ^ places
  /-- As many digits as there are places and one more leave one in front of the point. -/
  single : 10 ^ places ≤ units → units < 10 ^ (places + 1) → whole.length = 1 ∧ whole ≠ ['0']

theorem le_length_padded (least units : ℕ) : least ≤ (padded least units).length := by
  rw [padded, List.length_append, List.length_replicate]
  omega

theorem allDigits_padded (least units : ℕ) : AllDigits (padded least units) := by
  intro c hc
  rcases List.mem_append.mp hc with hzero | hdigit
  · rw [List.eq_of_mem_replicate hzero]
    decide
  · exact allDigits_digits units c hdigit

theorem digitsValue_padded (least units : ℕ) : digitsValue (padded least units) = units := by
  rw [padded, digitsValue_zeros_append, digitsValue_digits]

/-- Enough digits are not padded, and do not begin with a zero. -/
theorem padded_of_le {least units : ℕ} (hleast : least ≤ (digits units).length) :
    padded least units = digits units := by
  rw [padded, Nat.sub_eq_zero_of_le hleast, List.replicate_zero, List.nil_append]

theorem head?_padded {least units : ℕ} (hmore : least < (padded least units).length)
    (hleast : 1 ≤ least) : (padded least units).head? ≠ some '0' := by
  have hlong : least < (digits units).length := by
    rw [padded, List.length_append, List.length_replicate] at hmore
    omega
  rw [padded_of_le hlong.le]
  apply head?_digits
  rw [Nat.pos_iff_ne_zero]
  rintro rfl
  rw [digits, Nat.toDigits_zero, List.length_singleton] at hlong
  omega

/-- Digits with a point in front of the last of them. -/
theorem placed_eq (places units : ℕ) :
    ∃ whole fraction, placed places units = pointed whole fraction ∧
      LaidOut places units whole fraction := by
  have hlength := le_length_padded (places + 1) units
  have hdigits := allDigits_padded (places + 1) units
  let n := (padded (places + 1) units).length - places
  have hfraction : ((padded (places + 1) units).drop n).length = places := by
    rw [List.length_drop]
    omega
  have hn : 1 ≤ n := by omega
  refine ⟨(padded (places + 1) units).take n, (padded (places + 1) units).drop n, ?_, ?_⟩
  · rw [placed, pointed]
    by_cases hplaces : places = 0
    · have hnone : (padded (places + 1) units).drop n = [] :=
        List.length_eq_zero_iff.mp (hfraction.trans hplaces)
      have hall := List.take_append_drop n (padded (places + 1) units)
      rw [hnone] at hall ⊢
      rw [if_pos hplaces, if_pos rfl, hall]
    · have hsome : (padded (places + 1) units).drop n ≠ [] := fun hnone =>
        hplaces (by rw [← hfraction, hnone, List.length_nil])
      rw [if_neg hplaces, if_neg hsome]
  · constructor
    · exact fun c hc => hdigits c (List.mem_of_mem_take hc)
    · exact fun c hc => hdigits c (List.mem_of_mem_drop hc)
    · intro hnone
      have hempty := congrArg List.length hnone
      rw [List.length_take, List.length_nil] at hempty
      omega
    · intro hzero
      rw [List.head?_take, if_neg (by omega)] at hzero
      have hexact : (padded (places + 1) units).length = places + 1 := by
        by_contra hother
        exact head?_padded (by omega) (by omega) hzero
      have hone : n = 1 := by omega
      rw [hone, List.take_one, hzero]
      rfl
    · rw [List.take_append_drop, digitsValue_padded, hfraction]
    · intro hlow hhigh
      have hpositive : 0 < units := lt_of_lt_of_le (Nat.pow_pos (by norm_num)) hlow
      have hexact : (digits units).length = places + 1 := by
        rw [length_digits hpositive, Nat.log_eq_of_pow_le_of_lt_pow hlow hhigh]
      have hpadded := padded_of_le hexact.ge
      have hone : n = 1 := by
        have hsame := congrArg List.length hpadded
        omega
      rw [hone, hpadded]
      refine ⟨by rw [List.length_take, hexact]; omega, fun hzero => ?_⟩
      have hhead := congrArg List.head? hzero
      rw [List.head?_take, if_neg one_ne_zero] at hhead
      exact head?_digits hpositive hhead

/-- A trimmed number is the same number, and its fraction does not end with a zero. -/
theorem trimFraction_placed (places units : ℕ) :
    ∃ whole fraction, trimFraction (placed places units) = pointed whole fraction ∧
      fraction.getLast? ≠ some '0' ∧ LaidOut places units whole fraction := by
  obtain ⟨whole, fraction, htext, hlaid⟩ := placed_eq places units
  obtain ⟨count, hfraction⟩ := exists_eq_dropTrailing '0' fraction
  refine ⟨whole, dropTrailing '0' fraction, ?_, getLast?_dropTrailing _ _, { hlaid with
    fractionDigits := hlaid.fractionDigits.dropTrailing '0'
    value := ?_ }⟩
  · rw [htext, trimFraction_pointed hlaid.wholeDigits hlaid.fractionDigits]
  · have hvalue := hlaid.value
    have hlength := congrArg List.length hfraction
    rw [List.length_append, List.length_replicate] at hlength
    generalize dropTrailing '0' fraction = kept at *
    rw [hlength, hfraction, ← List.append_assoc, digitsValue_append_zeros, pow_add] at hvalue
    rw [← hvalue]
    push_cast
    field_simp

/-- The mark of an exponent is the text of one. -/
theorem exponentMark_eq (power : ℤ) :
    ∃ exponent : Exponent, exponentMark power = exponent.text ∧ exponent.value = power ∧
      exponent.WellFormed := by
  refine ⟨⟨power < 0, padded 2 power.natAbs⟩, ?_, ?_, ?_⟩
  · simp [exponentMark, Exponent.text, padded]
  · rw [Exponent.value, digitsValue_padded]
    simp only [decide_eq_true_eq]
    split <;> omega
  · exact ⟨allDigits_padded _ _, le_length_padded _ _,
      fun hmore => head?_padded hmore (by norm_num)⟩

end ScopeMachine.Decimal
