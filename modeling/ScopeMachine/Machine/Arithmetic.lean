/-
# Arithmetic

Two ordinal values are worked on as integers of 32 bits that wrap around. As
soon as one operand is a floating-point number, so is the other and the result.
-/

import ScopeMachine.Machine.State

namespace ScopeMachine

namespace Arithmetic

/-- The operation on integers. -/
def onInts : Arithmetic → Int32 → Int32 → Int32
  | .add, first, second => first + second
  | .sub, first, second => first - second
  | .mul, first, second => first * second

/-- The operation on floating-point numbers. -/
def onFloats : Arithmetic → Binary32 → Binary32 → Binary32
  | .add, first, second => first + second
  | .sub, first, second => first - second
  | .mul, first, second => first * second

/-- An operand as an integer. -/
def intOperand (value : Value) : Except EvalError Int32 :=
  match value.ordinal? with
  | some n => .ok n
  | none => .error (.typeMismatch .number (some value.kind))

/-- An operand as a floating-point number. -/
def floatOperand (value : Value) : Except EvalError Binary32 :=
  match value with
  | .float number => .ok number
  | _ =>
    match value.ordinal? with
    | some n => .ok (.ofInt32 n)
    | none => .error (.typeMismatch .number (some value.kind))

/-- The result of an operation on two values, the lower one first. -/
def apply (operation : Arithmetic) (first second : Value) : Except EvalError Value :=
  if first.kind = .float ∨ second.kind = .float then do
    let a ← floatOperand first
    let b ← floatOperand second
    return .float (operation.onFloats a b)
  else do
    let a ← intOperand first
    let b ← intOperand second
    return .int (operation.onInts a b)

/-- The result of an operation is a number. -/
theorem apply_ne_address {operation : Arithmetic} {first second result : Value}
    (happly : operation.apply first second = .ok result) (target : VariableAddress) :
    result ≠ .address target := by
  unfold apply at happly
  split at happly
  · cases hfirst : floatOperand first <;> cases hsecond : floatOperand second <;>
      simp [hfirst, hsecond, bind, Except.bind, pure, Except.pure] at happly
    simp [← happly]
  · cases hfirst : intOperand first <;> cases hsecond : intOperand second <;>
      simp [hfirst, hsecond, bind, Except.bind, pure, Except.pure] at happly
    simp [← happly]

/-- An operation is refused only for an operand that is no number. -/
theorem apply_eq_error {operation : Arithmetic} {first second : Value} {e : EvalError}
    (happly : operation.apply first second = .error e) :
    ∃ found, e = .typeMismatch .number found := by
  have hfloat (value : Value) (herror : floatOperand value = .error e) :
      ∃ found, e = .typeMismatch .number found := by
    unfold floatOperand at herror
    cases value <;> cases herror <;> exact ⟨_, rfl⟩
  have hint (value : Value) (herror : intOperand value = .error e) :
      ∃ found, e = .typeMismatch .number found := by
    unfold intOperand at herror
    cases value <;> cases herror <;> exact ⟨_, rfl⟩
  have heither {α : Type} {a b : Except EvalError α} {make : α → α → Value}
      (hrefused : (do let x ← a; let y ← b; return make x y) = .error e) :
      a = .error e ∨ b = .error e := by
    cases a with
    | error refusal =>
      cases hrefused
      exact .inl rfl
    | ok x =>
      cases b with
      | error refusal =>
        cases hrefused
        exact .inr rfl
      | ok y => cases hrefused
  unfold apply at happly
  split at happly
  · rcases heither happly with hfirst | hsecond
    · exact hfloat first hfirst
    · exact hfloat second hsecond
  · rcases heither happly with hfirst | hsecond
    · exact hint first hfirst
    · exact hint second hsecond

end Arithmetic

namespace Machine

/-- Replace the two upper values by the result of an operation on them. -/
def arithmetic (operation : Arithmetic) : Exec Unit := do
  let second ← pop
  let first ← pop
  match operation.apply first second with
  | .ok result => push result
  | .error error => throw error

end Machine

end ScopeMachine
