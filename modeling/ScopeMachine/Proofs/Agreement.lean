/-
# Outcomes that agree

Two pieces of code agree if both answer or both meet the same error. What they
answer and the machines that they leave are then compared by two relations that
the reader of a statement chooses. Agreement goes through sequences of steps, so
it is shown for the elementary steps and carried up from there.
-/

import ScopeMachine.Machine.Run

namespace ScopeMachine

/-- How a piece of code ends: with an answer or an error, and with the machine
that it leaves in either case. -/
abbrev Outcome (α : Type) := EStateM.Result EvalError Machine α

instance {α : Type} [DecidableEq α] : DecidableEq (Outcome α)
  | .ok a m, .ok b n => decidable_of_iff (a = b ∧ m = n) (by simp)
  | .error e m, .error f n => decidable_of_iff (e = f ∧ m = n) (by simp)
  | .ok _ _, .error _ _ => .isFalse nofun
  | .error _ _, .ok _ _ => .isFalse nofun

/-- Answers of the tables and types agree: both are there and related, or both
are the same refusal. -/
def Alike {ε α β : Type} (answers : α → β → Prop) : Except ε α → Except ε β → Prop
  | .ok a, .ok b => answers a b
  | .error e, .error f => e = f
  | _, _ => False

namespace Alike

variable {ε α : Type}

/-- What agrees with itself answer by answer agrees with itself. -/
theorem refl {related : α → α → Prop} (hrelated : ∀ a, related a a) (found : Except ε α) :
    Alike related found found := by
  cases found with
  | ok a => exact hrelated a
  | error e => exact rfl

end Alike

/-- What is found in the symbol tables is found without a change. -/
theorem Machine.ofScopes_eq_ok {α : Type} {found : Except ScopeError α} {a : α}
    {before after : Machine} (hfound : Machine.ofScopes found before = .ok a after) :
    found = .ok a ∧ after = before := by
  cases found with
  | error e => cases hfound
  | ok b =>
      cases hfound
      exact ⟨rfl, rfl⟩

/-- What is asked of the types is answered without a change. -/
theorem Machine.askTypes_eq_ok {α : Type} {question : TypeStore → Except TypeRefusal α} {a : α}
    {before after : Machine} (hasked : Machine.askTypes question before = .ok a after) :
    question before.types = .ok a ∧ after = before := by
  unfold Machine.askTypes at hasked
  cases hanswer : question before.types with
  | error refusal =>
      rw [hanswer] at hasked
      cases hasked
  | ok answer =>
      rw [hanswer] at hasked
      cases hasked
      exact ⟨rfl, rfl⟩

/-- Code that goes through has gone through its first part. -/
theorem Machine.bind_eq_ok {α β : Type} {work : Exec α} {next : α → Exec β} {answer : β}
    {before after : Machine} (hdone : (work >>= next) before = .ok answer after) :
    ∃ first between, work before = .ok first between ∧ next first between = .ok answer after := by
  simp only [bind, EStateM.bind] at hdone
  cases hwork : work before with
  | error e between =>
      rw [hwork] at hdone
      cases hdone
  | ok first between =>
      rw [hwork] at hdone
      exact ⟨first, between, rfl, hdone⟩

namespace Outcome

variable {α β γ δ : Type}

/-- The machine that a piece of code leaves. -/
def machine : Outcome α → Machine
  | .ok _ after => after
  | .error _ after => after

/-- The outcome with another machine. -/
def withMachine (outcome : Outcome α) (machine : Machine) : Outcome α :=
  match outcome with
  | .ok answer _ => .ok answer machine
  | .error error _ => .error error machine

@[simp]
theorem withMachine_machine (outcome : Outcome α) :
    outcome.withMachine outcome.machine = outcome := by
  cases outcome <;> rfl

/-- Two outcomes agree: both are answers that are related, or both are the same
error, and the machines are related. -/
def Agree (machines : Machine → Machine → Prop) (answers : α → β → Prop) :
    Outcome α → Outcome β → Prop
  | .ok a m, .ok b n => answers a b ∧ machines m n
  | .error e m, .error f n => e = f ∧ machines m n
  | _, _ => False

namespace Agree

variable {machines : Machine → Machine → Prop} {answers : α → β → Prop} {m n : Machine}

/-- The machines of outcomes that agree are related. -/
theorem machine {first : Outcome α} {second : Outcome β}
    (hagree : Agree machines answers first second) :
    machines (Outcome.machine first) (Outcome.machine second) := by
  cases first <;> cases second
  · exact hagree.2
  · exact hagree.elim
  · exact hagree.elim
  · exact hagree.2

/-- Outcomes that agree in their answers differ in their machines at most. -/
theorem eq_withMachine {first second : Outcome α} (hagree : Agree machines Eq first second) :
    second = first.withMachine second.machine := by
  cases first <;> cases second
  · obtain ⟨rfl, -⟩ := hagree
    rfl
  · exact hagree.elim
  · exact hagree.elim
  · obtain ⟨rfl, -⟩ := hagree
    rfl

/-- Code that answers at once agrees if the answers and the machines do. -/
theorem pure {a : α} {b : β} (hanswers : answers a b) (hmachines : machines m n) :
    Agree machines answers ((Pure.pure a : Exec α) m) ((Pure.pure b : Exec β) n) :=
  ⟨hanswers, hmachines⟩

/-- Code that gives up agrees if the errors and the machines do. -/
theorem throw {e : EvalError} (hmachines : machines m n) :
    Agree machines answers ((MonadExcept.throw e : Exec α) m) ((MonadExcept.throw e : Exec β) n) :=
  ⟨rfl, hmachines⟩

/-- Changes of the machine agree if the changed machines are related. -/
theorem modify {change change' : Machine → Machine}
    (hmachines : machines (change m) (change' n)) :
    Agree machines Eq ((modifyThe Machine change : Exec Unit) m)
      ((modifyThe Machine change' : Exec Unit) n) :=
  ⟨rfl, hmachines⟩

/-- A sequence agrees if its first parts agree and its second parts do after any
two outcomes of these. -/
theorem andThen {results : γ → δ → Prop} {first : Exec α} {second : Exec β}
    {next : α → Exec γ} {next' : β → Exec δ}
    (hfirst : Agree machines answers (first m) (second n))
    (hnext : ∀ a b m' n', first m = .ok a m' → answers a b → machines m' n' →
      Agree machines results (next a m') (next' b n')) :
    Agree machines results ((first >>= next) m) ((second >>= next') n) := by
  show Agree machines results (EStateM.bind first next m) (EStateM.bind second next' n)
  simp only [EStateM.bind]
  cases hm : first m <;> cases hn : second n <;> rw [hm, hn] at hfirst
  · exact hnext _ _ _ _ hm hfirst.1 hfirst.2
  · exact hfirst.elim
  · exact hfirst.elim
  · exact hfirst

/-- What is looked up in tables that agree agrees. -/
theorem ofScopes {first : Except ScopeError α} {second : Except ScopeError β}
    (hfound : Alike answers first second) (hmachines : machines m n) :
    Agree machines answers (Machine.ofScopes first m) (Machine.ofScopes second n) := by
  cases first <;> cases second
  · exact ⟨congrArg EvalError.scope hfound, hmachines⟩
  · exact hfound.elim
  · exact hfound.elim
  · exact ⟨hfound, hmachines⟩

/-- What is asked of types that agree agrees. -/
theorem askTypes {question : TypeStore → Except TypeRefusal α}
    {question' : TypeStore → Except TypeRefusal β}
    (hfound : Alike answers (question m.types) (question' n.types)) (hmachines : machines m n) :
    Agree machines answers (Machine.askTypes question m) (Machine.askTypes question' n) := by
  unfold Machine.askTypes
  cases hm : question m.types <;> cases hn : question' n.types <;> rw [hm, hn] at hfound
  · exact ⟨by rw [show _ = _ from hfound], hmachines⟩
  · exact hfound.elim
  · exact hfound.elim
  · exact ⟨hfound, hmachines⟩

end Agree

end Outcome

end ScopeMachine
