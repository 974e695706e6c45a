/-
# Expressions

An expression is compiled to the code of its operands, the left one in front of the right
one, and the operation behind them. Whatever its shape, this code leaves one value on top of
the stack and changes no variable. Every operation wraps around, which comes to the same as
wrapping around the exact number once. An operand that stands alone is not worked on, so it
is left as the character or the truth value that it is.
-/

import ScopeMachine.Proofs.Forwarding

namespace ScopeMachine

open Machine

namespace Arithmetic

/-- The operation on integers of any size. -/
def onIntegers : Arithmetic → Int → Int → Int
  | .add, first, second => first + second
  | .sub, first, second => first - second
  | .mul, first, second => first * second

/-- Wrapping around goes through the operation. -/
theorem onInts_ofInt (operation : Arithmetic) (first second : Int) :
    operation.onInts (Int32.ofInt first) (Int32.ofInt second) =
      Int32.ofInt (operation.onIntegers first second) := by
  cases operation with
  | add => exact (Int32.ofInt_add first second).symm
  | sub => exact (Int32.ofInt_sub first second).symm
  | mul => exact (Int32.ofInt_mul first second).symm

/-- Ordinal values are worked on as integers. -/
theorem apply_of_ordinal? (operation : Arithmetic) {first second : Value} {a b : Int32}
    (hfirst : first.ordinal? = some a) (hsecond : second.ordinal? = some b) :
    operation.apply first second = .ok (.int (operation.onInts a b)) := by
  have hkind {value : Value} {n : Int32} (hvalue : value.ordinal? = some n) :
      value.kind ≠ .float := by
    cases value with
    | float number => cases hvalue
    | _ => nofun
  have hints : ¬ (first.kind = .float ∨ second.kind = .float) :=
    not_or.mpr ⟨hkind hfirst, hkind hsecond⟩
  simp only [apply, if_neg hints, intOperand, hfirst, hsecond]
  rfl

end Arithmetic

/-- An expression over literals and variables. -/
inductive Expression where
  | literal (written : Literal)
  | named (addr : SymbolAddr)
  | combined (operation : Arithmetic) (first second : Expression)
deriving DecidableEq

/-- The code of an expression, with every operation behind its operands. -/
def Expression.code : Expression → Body
  | .literal written => [.push written]
  | .named addr => [.fetch addr]
  | .combined operation first second => first.code ++ second.code ++ [.arithmetic operation]

/-- The value of the variable at an address. -/
def Machine.valueAt? (env : Environment) (machine : Machine) (addr : SymbolAddr) :
    Option Value :=
  match env.scopes.resolve addr with
  | .error _ => none
  | .ok ref =>
    match env.scopes.symbol ref with
    | .error _ => none
    | .ok symbol =>
      if symbol.defn = .constant then none
      else machine.slot? (machine.addressOf symbol.defn ref)

/-- The number that an expression stands for, if its operands are ordinal values. -/
def Expression.number? (env : Environment) (machine : Machine) : Expression → Option Int
  | .literal written => (Value.ofLiteral written).ordinal?.map Int32.toInt
  | .named addr => (machine.valueAt? env addr).bind fun value =>
      value.ordinal?.map Int32.toInt
  | .combined operation first second => do
      let a ← first.number? env machine
      let b ← second.number? env machine
      return operation.onIntegers a b

namespace Machine

/-- The later machine is the same, with a value on top of its stack and maybe more output. -/
def Topped (machine : Machine) (value : Value) (later : Machine) : Prop :=
  ∃ sink, later = { machine with stack := value :: machine.stack }.withSink sink

variable {env : Environment} {machine later : Machine} {value : Value}

/-- What an expression stands for is read off the variables alone. -/
theorem Topped.number?_eq (htopped : machine.Topped value later) (expression : Expression) :
    expression.number? env later = expression.number? env machine := by
  obtain ⟨sink, rfl⟩ := htopped
  induction expression with
  | literal written => rfl
  | named addr => rfl
  | combined operation first second ihfirst ihsecond =>
      simp only [Expression.number?, ihfirst, ihsecond]

theorem Topped.types_eq (htopped : machine.Topped value later) : later.types = machine.types := by
  obtain ⟨sink, rfl⟩ := htopped
  rfl

theorem runOps_of_perform {nested : Nested} {op : Op}
    (hperform : perform env nested op machine = .ok () later) (hop : op ≠ .leave) (rest : Body) :
    runOps env nested (op :: rest) machine = runOps env nested rest later := by
  rw [runOps_cons env nested rest hop]
  simp only [bind, EStateM.bind, hperform]

theorem perform_fetch_topped {addr : SymbolAddr} (nested : Nested)
    (hvariable : machine.valueAt? env addr = some value)
    (hannounces : env.Announces .fetch machine.types) :
    ∃ later, machine.Topped value later ∧
      perform env nested (.fetch addr) machine = .ok () later := by
  unfold Machine.valueAt? at hvariable
  split at hvariable
  case h_1 => cases hvariable
  case h_2 ref hresolve =>
    split at hvariable
    case h_1 => cases hvariable
    case h_2 symbol hsymbol =>
      split at hvariable
      case isTrue => cases hvariable
      case isFalse hconstant =>
        obtain ⟨sink, hfetch⟩ := fetch_of_slot hsymbol rfl hconstant hvariable hannounces
        refine ⟨_, ⟨sink, rfl⟩, ?_⟩
        simp only [perform, resolve, hresolve, ofScopes_ok_bind]
        simp only [bind, EStateM.bind, hfetch]
        rfl

/-- An operation takes two ordinal values off the stack and puts its result there. -/
theorem perform_arithmetic_topped (operation : Arithmetic) (nested : Nested)
    {first second : Value} {a b : Int32} {between : Machine}
    (hbetween : machine.Topped first between) (hlater : between.Topped second later)
    (hfirst : first.ordinal? = some a) (hsecond : second.ordinal? = some b) :
    ∃ last, machine.Topped (.int (operation.onInts a b)) last ∧
      perform env nested (.arithmetic operation) later = .ok () last := by
  obtain ⟨sink, rfl⟩ := hbetween
  obtain ⟨sink', rfl⟩ := hlater
  refine ⟨_, ⟨sink', rfl⟩, ?_⟩
  have happly := operation.apply_of_ordinal? hfirst hsecond
  show arithmetic operation _ = _
  simp only [arithmetic, bind, EStateM.bind, pop, withSink, happly]
  rfl

end Machine

/-- What an expression leaves: an operand that stands alone as it is, and otherwise the number
that it stands for, wrapped around. -/
def Expression.Leaves (env : Environment) (machine : Machine) (number : Int) (value : Value) :
    Expression → Prop
  | .literal written => value = .ofLiteral written
  | .named addr => machine.valueAt? env addr = some value
  | .combined _ _ _ => value = .int (Int32.ofInt number)

/-- The code of an expression leaves its value and goes on with what comes behind it. -/
theorem Expression.runOps_code {env : Environment} (nested : Nested) (expression : Expression)
    (rest : Body) {machine : Machine} {n : Int}
    (hnumber : expression.number? env machine = some n)
    (hannounces : env.Announces .fetch machine.types) :
    ∃ value later, expression.Leaves env machine n value ∧
      value.ordinal? = some (Int32.ofInt n) ∧ machine.Topped value later ∧
      runOps env nested (expression.code ++ rest) machine = runOps env nested rest later := by
  induction expression generalizing machine n rest with
  | literal written =>
      obtain ⟨m, hordinal, rfl⟩ := Option.map_eq_some_iff.mp hnumber
      refine ⟨.ofLiteral written, _, rfl, ?_, ⟨machine.channels.sink, rfl⟩, rfl⟩
      rw [Int32.ofInt_toInt]
      exact hordinal
  | named addr =>
      obtain ⟨value, hvariable, hvalue⟩ := Option.bind_eq_some_iff.mp hnumber
      obtain ⟨m, hordinal, rfl⟩ := Option.map_eq_some_iff.mp hvalue
      obtain ⟨later, htopped, hperform⟩ := perform_fetch_topped nested hvariable hannounces
      refine ⟨value, later, hvariable, ?_, htopped, runOps_of_perform hperform nofun rest⟩
      rw [Int32.ofInt_toInt]
      exact hordinal
  | combined operation first second ihfirst ihsecond =>
      obtain ⟨a, hfirst, hboth⟩ := Option.bind_eq_some_iff.mp hnumber
      obtain ⟨b, hsecond, hresult⟩ := Option.bind_eq_some_iff.mp hboth
      cases hresult
      obtain ⟨lower, between, -, hlower, hbetween, hrunFirst⟩ :=
        ihfirst (second.code ++ .arithmetic operation :: rest) hfirst hannounces
      rw [← hbetween.number?_eq second] at hsecond
      rw [← hbetween.types_eq] at hannounces
      obtain ⟨upper, later, -, hupper, hlater, hrunSecond⟩ :=
        ihsecond (.arithmetic operation :: rest) hsecond hannounces
      obtain ⟨last, hlast, hperform⟩ :=
        perform_arithmetic_topped operation nested hbetween hlater hlower hupper
      have hwrapped := operation.onInts_ofInt a b
      refine ⟨_, last, rfl, rfl, hwrapped ▸ hlast, ?_⟩
      calc
        runOps env nested ((combined operation first second).code ++ rest) machine
          = runOps env nested (first.code ++ (second.code ++ .arithmetic operation :: rest))
              machine := by simp only [code, List.append_assoc, List.singleton_append]
        _ = runOps env nested (second.code ++ .arithmetic operation :: rest) between := hrunFirst
        _ = runOps env nested (.arithmetic operation :: rest) later := hrunSecond
        _ = runOps env nested rest last := runOps_of_perform hperform nofun rest

namespace Machine

/-- Whatever the variables hold and whatever lies on the stack, the code of an expression over
ordinal values goes through. It leaves one value on top of the stack, which stands for the
exact number of the expression wrapped around to 32 bits, and is this integer if there is
anything to work out. Nothing else changes, but that fetches are announced if they are traced. -/
theorem run_expression (env : Environment) (machine : Machine) (expression : Expression) {n : Int}
    (hnumber : expression.number? env machine = some n)
    (hannounces : env.Announces .fetch machine.types) :
    ∃ value sink, run env expression.code machine =
        .ok () ({ machine with stack := value :: machine.stack }.withSink sink) ∧
      value.ordinal? = some (Int32.ofInt n) ∧ (Int32.ofInt n).toInt = n.bmod 4294967296 ∧
      expression.Leaves env machine n value := by
  obtain ⟨value, _, hleaves, hordinal, ⟨sink, rfl⟩, hrun⟩ :=
    expression.runOps_code (nestedIn env (machine.room env)) [] hnumber hannounces
  refine ⟨value, sink, ?_, hordinal, Int32.toInt_ofInt, hleaves⟩
  rw [run, runWithin_eq, ← List.append_nil expression.code, hrun]
  rfl

/-- The number `(x - 'a') * 2147483647`, for the global `x`. -/
def farBelow : Expression :=
  .combined .mul (.combined .sub (.named ⟨⟨0⟩, ⟨0⟩⟩) (.literal (.char 97)))
    (.literal (.int 2147483647))

/-- A machine whose global `x` is 5, with a value on its stack. -/
def holdingFive : Machine where
  stack := [.bool true]
  globals := Slots.bind [⟨⟨0⟩, ⟨0⟩⟩] [.int 5]

theorem run_expression_farBelow :
    let env := oneGlobal.tracing .all
    farBelow.number? env holdingFive = some (-197568495524) ∧
      env.Announces .fetch holdingFive.types ∧
      ∃ sink, run env farBelow.code holdingFive =
        .ok () ({ holdingFive with stack := [.int 92, .bool true] }.withSink sink) := by
  intro env
  have hnumber : farBelow.number? env holdingFive = some (-197568495524) := by decide
  have hannounces : env.Announces .fetch holdingFive.types := by
    intro _
    refine ⟨.predefined, fun ref symbol id hsymbol => ?_⟩
    have hall : ∀ scope ∈ env.scopes.scopes.toList, ∀ symbol ∈ scope.symbols.toList,
        symbol.type = some .int := by decide
    rw [ScopeStore.symbol_of_all hall hsymbol]
    rintro ⟨⟩
    decide
  obtain ⟨value, sink, hrun, -, -, hleaves⟩ :=
    run_expression env holdingFive farBelow hnumber hannounces
  cases hleaves
  exact ⟨hnumber, hannounces, sink, hrun⟩

/-- A session whose global `x` has a type that is not there, with fetches traced. -/
def strayGlobal : Environment where
  scopes := ⟨#[{ index := ⟨0⟩
                 symbols := #[{ name := "x", home := ⟨0⟩, type := some ⟨99⟩, defn := .variable }]
                 names := .node .leaf "x" ⟨0⟩ .leaf
                 order := some #[⟨0⟩]
                 ranks := #[some ⟨0⟩] }]⟩
  settings := { trace := .all }

/-- A character that stands alone stands for its number, but it is left as a character. A
variable cannot be announced under a type that is not there, whatever it holds. -/
theorem lone_operand_is_left :
    (Expression.literal (.char 97)).number? oneGlobal {} = some 97 ∧
      run oneGlobal (Expression.literal (.char 97)).code {} =
        .ok () { stack := [.char 97] } ∧
      Value.char 97 ≠ .int (Int32.ofInt 97) ∧
      (Expression.named ⟨⟨0⟩, ⟨0⟩⟩).number? strayGlobal holdingFive = some 5 ∧
      run strayGlobal (Expression.named ⟨⟨0⟩, ⟨0⟩⟩).code holdingFive =
        .error (.types (.unknown ⟨99⟩)) holdingFive :=
  ⟨by decide, rfl, nofun, by decide, rfl⟩

end Machine

end ScopeMachine
