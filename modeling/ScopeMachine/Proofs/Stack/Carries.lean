/-
# Heights of the stack

Code that works on a stack finds some values of its own on it and whatever its
callers have left below. `Carries` says that code takes its own part of the stack
from one height to another without touching the part below, and that it never lacks
an operand. If it meets an error of another kind, the part below is still there.

Carrying composes along sequences, and what carries one height carries any greater
one by as much, since more of the stack then counts as below.
-/

import ScopeMachine.Proofs.Agreement

namespace ScopeMachine

/-- Errors of code that finds too few values on the stack. -/
def EvalError.IsShortage : EvalError → Prop
  | .stackUnderflow => True
  | .arityMismatch _ _ _ => True
  | _ => False

/-- The outcome leaves `count` values above `base` or an error, which is no shortage,
with whatever above `base`. -/
inductive Outcome.Leaves {α : Type} (base : List Value) (count : Nat) : Outcome α → Prop
  | ok {a : α} {after : Machine} (own : List Value) (hcount : own.length = count)
      (hstack : after.stack = own ++ base) : Leaves base count (.ok a after)
  | error {e : EvalError} {after : Machine} (own : List Value) (hshortage : ¬ e.IsShortage)
      (hstack : after.stack = own ++ base) : Leaves base count (.error e after)

namespace Exec

variable {α β : Type}

/-- Code that begins with `start` values above any base leaves `finish` values above
it. -/
def Carries (start finish : Nat) (work : Exec α) : Prop :=
  ∀ (machine : Machine) (own base : List Value), machine.stack = own ++ base →
    own.length = start → Outcome.Leaves base finish (work machine)

/-- Code that works as it does on any stack, and leaves the stack as it is. -/
def KeepsStack (work : Exec α) : Prop :=
  ∀ machine, match work machine with
    | .ok _ after => after.stack = machine.stack
    | .error e after => ¬ e.IsShortage ∧ after.stack = machine.stack

/-! ## Sequences and frames -/

theorem Carries.bind {start middle finish : Nat} {first : Exec α} {next : α → Exec β}
    (hfirst : Carries start middle first) (hnext : ∀ a, Carries middle finish (next a)) :
    Carries start finish (first >>= next) := by
  intro machine own base hstack hlength
  have hleaves := hfirst machine own base hstack hlength
  show Outcome.Leaves base finish (EStateM.bind first next machine)
  unfold EStateM.bind
  cases hdone : first machine with
  | ok a after =>
      rw [hdone] at hleaves
      cases hleaves with
      | ok later hlater hafter => exact hnext a after later base hafter hlater
  | error e after =>
      rw [hdone] at hleaves
      cases hleaves with
      | error later hshortage hafter => exact .error later hshortage hafter

/-- More values may lie on the stack. -/
theorem Carries.above {start finish : Nat} {work : Exec α} (hwork : Carries start finish work)
    (extra : Nat) : Carries (start + extra) (finish + extra) work := by
  intro machine own base hstack hlength
  have hbelow : machine.stack = own.take start ++ (own.drop start ++ base) := by
    rw [hstack, ← List.append_assoc, List.take_append_drop]
  have hleaves := hwork machine (own.take start) (own.drop start ++ base) hbelow
    (by rw [List.length_take]; omega)
  generalize work machine = outcome at hleaves ⊢
  cases hleaves with
  | ok later hlater hafter =>
      apply Outcome.Leaves.ok (later ++ own.drop start)
      · rw [List.length_append, List.length_drop]
        omega
      · rw [hafter, List.append_assoc]
  | error later hshortage hafter =>
      apply Outcome.Leaves.error (later ++ own.drop start) hshortage
      rw [hafter, List.append_assoc]

theorem KeepsStack.carries {work : Exec α} (hwork : KeepsStack work) (height : Nat) :
    Carries height height work := by
  intro machine own base hstack hlength
  have hkeeps := hwork machine
  cases hdone : work machine with
  | ok a after =>
      rw [hdone] at hkeeps
      exact .ok own hlength (hkeeps.trans hstack)
  | error e after =>
      rw [hdone] at hkeeps
      exact .error own hkeeps.1 (hkeeps.2.trans hstack)

/-- Steps that keep the stack may come first. -/
theorem KeepsStack.andThen {start finish : Nat} {first : Exec α} {next : α → Exec β}
    (hfirst : KeepsStack first) (hnext : ∀ a, Carries start finish (next a)) :
    Carries start finish (first >>= next) :=
  (hfirst.carries start).bind hnext

theorem KeepsStack.bind {first : Exec α} {next : α → Exec β} (hfirst : KeepsStack first)
    (hnext : ∀ a, KeepsStack (next a)) : KeepsStack (first >>= next) := by
  intro machine
  have hkeeps := hfirst machine
  show match EStateM.bind first next machine with | .ok _ after => _ | .error e after => _
  unfold EStateM.bind
  cases hdone : first machine with
  | ok a after =>
      rw [hdone] at hkeeps
      have hlater := hnext a after
      cases hnextDone : next a after <;> simp only [hnextDone] at hlater ⊢
      · exact hlater.trans hkeeps
      · exact ⟨hlater.1, hlater.2.trans hkeeps⟩
  | error e after =>
      rw [hdone] at hkeeps
      exact hkeeps

theorem KeepsStack.pure (a : α) : KeepsStack (Pure.pure a : Exec α) :=
  fun _ => rfl

theorem Carries.pure (height : Nat) (a : α) : Carries height height (Pure.pure a : Exec α) :=
  (KeepsStack.pure a).carries height

theorem Carries.throw (start finish : Nat) {e : EvalError} (hshortage : ¬ e.IsShortage) :
    Carries start finish (MonadExcept.throw e : Exec α) :=
  fun _ own _ hstack _ => .error own hshortage hstack

end Exec

end ScopeMachine
