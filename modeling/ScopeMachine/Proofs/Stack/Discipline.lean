/-
# Discipline of the stack

Every instruction has a static effect: how many values it takes from the stack and
how many it leaves. A body is balanced if, counting along its instructions from an
empty part of the stack, no instruction lacks operands and the count at the end is
that of the results. If all routines of a session are balanced, then a call takes
its arguments, leaves its results and touches nothing below, to whatever depth calls
nest and recur, and no instruction ever meets a shortage on the stack.
-/

import ScopeMachine.Proofs.Stack.Operations

namespace ScopeMachine

open Machine Exec

/-- How many results a call leaves. -/
def RoutineKind.resultCount : RoutineKind → Nat
  | .function => 1
  | .procedure => 0
  | .program => 0

/-- What an instruction does to the height of the stack. -/
structure StackEffect where
  /-- How many values it takes. -/
  takes : Nat
  /-- How many values it leaves. -/
  leaves : Nat
deriving DecidableEq

namespace StackEffect

/-- The effect of calling the symbol behind an address, `asMember` with the type of a
receiver. There is none if such a call always fails. -/
def ofCall (scopes : ScopeStore) (addr : SymbolAddr) (asMember : Bool) : Option StackEffect :=
  match scopes.resolve addr >>= scopes.symbol with
  | .error _ => none
  | .ok symbol =>
    match symbol.defn with
    | .routine kind routine =>
      match routine.code with
      | .interpreted _ => some ⟨routine.parameters.length, kind.resultCount⟩
      | .native member => if asMember then some ⟨member.arity + 1, 1⟩ else none
      | _ => none
    | _ => none

/-- The effect of an instruction, if it does not always fail. -/
def of (scopes : ScopeStore) : Op → Option StackEffect
  | .push _ => some ⟨0, 1⟩
  | .fetch _ => some ⟨0, 1⟩
  | .fetchAddress _ => some ⟨0, 1⟩
  | .store _ => some ⟨1, 0⟩
  | .pop => some ⟨1, 0⟩
  | .arithmetic _ => some ⟨2, 1⟩
  | .statement _ => some ⟨0, 0⟩
  | .leave => some ⟨0, 0⟩
  | .call addr => ofCall scopes addr false
  | .callMember addr _ => ofCall scopes addr true

end StackEffect

/-- Along the instructions of a body up to where it leaves or ends, the height always
covers what an instruction takes, and it comes to `results`. After an instruction that
always fails any height may be assumed. -/
def Body.Balanced (scopes : ScopeStore) (results : Nat) : (height : Nat) → Body → Prop
  | height, [] => height = results
  | height, .leave :: _ => height = results
  | height, op :: rest =>
    match StackEffect.of scopes op with
    | some effect =>
      effect.takes ≤ height ∧
        Body.Balanced scopes results (height - effect.takes + effect.leaves) rest
    | none => ∃ later, Body.Balanced scopes results later rest

/-- The body of every routine is balanced. -/
def ScopeStore.Balanced (scopes : ScopeStore) : Prop :=
  ∀ ref symbol kind routine body, scopes.symbol ref = .ok symbol →
    symbol.defn = .routine kind routine → routine.code = .interpreted body →
    Body.Balanced scopes kind.resultCount 0 body

theorem Body.balanced_cons {scopes : ScopeStore} {results height : Nat} {op : Op} {rest : Body}
    (hop : op ≠ .leave) :
    Body.Balanced scopes results height (op :: rest) ↔
      match StackEffect.of scopes op with
      | some effect =>
        effect.takes ≤ height ∧
          Body.Balanced scopes results (height - effect.takes + effect.leaves) rest
      | none => ∃ later, Body.Balanced scopes results later rest := by
  cases op with
  | leave => exact absurd rfl hop
  | _ => rfl

/-! ## Checking the balance -/

/-- Check that a body is balanced. The check gives up on calls that always fail. -/
def Body.isBalanced (scopes : ScopeStore) (results : Nat) : (height : Nat) → Body → Bool
  | height, [] => height == results
  | height, op :: rest =>
    if op = .leave then height == results
    else
      match StackEffect.of scopes op with
      | some effect =>
        decide (effect.takes ≤ height) &&
          Body.isBalanced scopes results (height - effect.takes + effect.leaves) rest
      | none => false

/-- Check that the body of a symbol is balanced, if it has one. -/
def Symbol.isBalanced (symbol : Symbol) (scopes : ScopeStore) : Bool :=
  match symbol.defn with
  | .routine kind routine =>
    match routine.code with
    | .interpreted body => Body.isBalanced scopes kind.resultCount 0 body
    | _ => true
  | _ => true

theorem Body.balanced_of_isBalanced {scopes : ScopeStore} {results height : Nat} {body : Body}
    (hcheck : Body.isBalanced scopes results height body) :
    Body.Balanced scopes results height body := by
  induction body generalizing height with
  | nil => exact eq_of_beq hcheck
  | cons op rest ih =>
      unfold Body.isBalanced at hcheck
      by_cases hop : op = .leave
      · subst hop
        rw [if_pos rfl] at hcheck
        exact eq_of_beq hcheck
      · rw [if_neg hop] at hcheck
        rw [Body.balanced_cons hop]
        cases heffect : StackEffect.of scopes op with
        | none =>
            rw [heffect] at hcheck
            cases hcheck
        | some effect =>
            rw [heffect, Bool.and_eq_true] at hcheck
            exact ⟨of_decide_eq_true hcheck.1, ih hcheck.2⟩

/-- A session passes if all its symbols do. -/
theorem ScopeStore.balanced_of_isBalanced {scopes : ScopeStore}
    (hcheck : ∀ scope ∈ scopes.scopes.toList, ∀ symbol ∈ scope.symbols.toList,
      symbol.isBalanced scopes) : scopes.Balanced := by
  intro ref symbol kind routine body hsymbol hdefn hcode
  have hbody : symbol.isBalanced scopes := symbol_of_all hcheck hsymbol
  rw [Symbol.isBalanced, hdefn] at hbody
  dsimp only at hbody
  rw [hcode] at hbody
  exact Body.balanced_of_isBalanced hbody

namespace Machine

variable {env : Environment} {nested : Nested}

/-- Bodies that are run by calls carry what they are balanced for. -/
def NestedCarry (env : Environment) (nested : Nested) : Prop :=
  ∀ run, nested = some run → ∀ results body, Body.Balanced env.scopes results 0 body →
    Carries 0 results (run body)

theorem carries_withFrame {start finish : Nat} {work : Exec Unit} (frame : Frame)
    (hwork : Carries start finish work) : Carries start finish (withFrame frame work) := by
  intro machine own base hstack hlength
  have hleaves := hwork { machine with frames := machine.frames.push frame } own base hstack
    hlength
  unfold withFrame
  cases hdone : work { machine with frames := machine.frames.push frame } with
  | ok a after =>
      rw [hdone] at hleaves
      cases hleaves with
      | ok later hlater hafter => exact .ok later hlater hafter
  | error e after =>
      rw [hdone] at hleaves
      cases hleaves with
      | error later hshortage hafter => exact .error later hshortage hafter

theorem carries_callBody (hnested : NestedCarry env nested) (name : String) (kind : RoutineKind)
    (routine : Routine) {body : Body} {results : Nat}
    (hbody : Body.Balanced env.scopes results 0 body) :
    Carries routine.parameters.length results
      (callBody env nested name kind routine body) := by
  cases hrun : nested with
  | none => exact .throw _ _ id
  | some run =>
      apply (carries_popOperands _ _).bind
      intro arguments
      apply (keepsStack_announce _ _ _).andThen
      intro _
      apply (carries_withFrame _ (hnested run hrun results body hbody)).bind
      intro _
      exact (keepsStack_announce _ _ _).carries results

/-- Code with an effect carries the stack accordingly, and code without one always
fails, which carries any height to any other. -/
def CarriesEffect {α : Type} (effect : Option StackEffect) (work : Exec α) : Prop :=
  match effect with
  | some effect => Carries effect.takes effect.leaves work
  | none => ∀ start finish, Carries start finish work

theorem CarriesEffect.andReturn {α : Type} {effect : Option StackEffect} {work : Exec α}
    (hwork : CarriesEffect effect work) :
    CarriesEffect effect (do let _ ← work; return ()) := by
  cases effect with
  | none => exact fun start finish => (hwork start finish).bind fun _ => .pure finish ()
  | some effect =>
      have hcarries : Carries effect.takes effect.leaves work := hwork
      exact hcarries.bind fun _ => .pure effect.leaves ()

/-- A call of a routine that has been compiled takes its arguments and leaves its
results. -/
theorem carries_callSymbol (hnested : NestedCarry env nested) (hscopes : env.scopes.Balanced)
    {ref : SymbolRef} {symbol : Symbol} {kind : RoutineKind} {routine : Routine} {body : Body}
    (hsymbol : env.scopes.symbol ref = .ok symbol) (hdefn : symbol.defn = .routine kind routine)
    (hcode : routine.code = .interpreted body) (receiver : Option TypeId) :
    Carries routine.parameters.length kind.resultCount (callSymbol env nested ref receiver) := by
  have hbody := hscopes ref symbol kind routine body hsymbol hdefn hcode
  rw [callSymbol, hsymbol, ofScopes_ok_bind, hdefn]
  dsimp only
  rw [hcode]
  exact (carries_callBody hnested symbol.name kind routine hbody).bind fun _ => .pure _ _

/-- Calling the symbol behind an address has the effect that is foreseen for it. -/
theorem carriesEffect_call (hnested : NestedCarry env nested) (hscopes : env.scopes.Balanced)
    (addr : SymbolAddr) (receiver : Option TypeId) :
    CarriesEffect (StackEffect.ofCall env.scopes addr receiver.isSome) (do
      let ref ← resolve env addr
      callSymbol env nested ref receiver) := by
  have hfails {α : Type} {e : EvalError} (hshortage : ¬ e.IsShortage) :
      CarriesEffect none (throw e : Exec α) :=
    fun start finish => .throw start finish hshortage
  unfold StackEffect.ofCall resolve
  cases hresolve : env.scopes.resolve addr with
  | error e =>
      rw [ofScopes_error_bind]
      exact hfails id
  | ok ref =>
      rw [ofScopes_ok_bind]
      simp only [bind, Except.bind]
      cases hsymbol : env.scopes.symbol ref with
      | error e =>
          rw [callSymbol, hsymbol, ofScopes_error_bind]
          exact hfails id
      | ok symbol =>
          dsimp only
          cases hdefn : symbol.defn with
          | routine kind routine =>
              dsimp only
              cases hcode : routine.code with
              | interpreted body =>
                  exact carries_callSymbol hnested hscopes hsymbol hdefn hcode receiver
              | native member =>
                  rw [callSymbol, hsymbol, ofScopes_ok_bind, hdefn]
                  dsimp only
                  rw [hcode]
                  cases receiver with
                  | none => exact hfails id
                  | some type => exact carries_callMember env member type _
              | _ =>
                  rw [callSymbol, hsymbol, ofScopes_ok_bind, hdefn]
                  dsimp only
                  rw [hcode]
                  exact hfails id
          | _ =>
              rw [callSymbol, hsymbol, ofScopes_ok_bind, hdefn]
              exact hfails id

/-! ## Instructions and bodies -/

/-- Every instruction has the effect that is foreseen for it. -/
theorem carriesEffect_perform (hnested : NestedCarry env nested) (hscopes : env.scopes.Balanced)
    (op : Op) : CarriesEffect (StackEffect.of env.scopes op) (perform env nested op) := by
  cases op with
  | push literal => exact carries_push 0 _
  | fetch addr =>
      apply (keepsStack_ofScopes _).andThen
      intro ref
      apply (keepsStack_fetch env ref).andThen
      intro value
      exact carries_push 0 value
  | fetchAddress addr =>
      apply (keepsStack_ofScopes _).andThen
      intro ref
      apply (keepsStack_fetchAddress env ref).andThen
      intro value
      exact carries_push 0 value
  | store addr =>
      apply (keepsStack_ofScopes _).andThen
      intro ref
      apply (carries_pop 0).bind
      intro value
      exact (keepsStack_store env ref value).carries 0
  | call addr =>
      have hcall := (carriesEffect_call hnested hscopes addr none).andReturn
      rw [bind_assoc] at hcall
      exact hcall
  | callMember addr receiver =>
      have hcall := (carriesEffect_call hnested hscopes addr (some receiver)).andReturn
      rw [bind_assoc] at hcall
      exact hcall
  | statement line =>
      have hline : KeepsStack (modify fun machine => { machine with line } : Exec Unit) :=
        fun _ => rfl
      exact hline.andThen fun _ => (keepsStack_announce _ _ _).carries 0
  | arithmetic operation => exact carries_arithmetic operation
  | pop => exact (carries_pop 0).bind fun _ => .pure 0 ()
  | leave => exact .pure 0 ()

/-- A balanced body carries the height that it is given to the number of results. -/
theorem carries_runOps (hnested : NestedCarry env nested) (hscopes : env.scopes.Balanced)
    {results height : Nat} {body : Body}
    (hbody : Body.Balanced env.scopes results height body) :
    Carries height results (runOps env nested body) := by
  induction body generalizing height with
  | nil =>
      obtain rfl : height = results := hbody
      exact .pure height ()
  | cons op rest ih =>
      by_cases hop : op = .leave
      · subst hop
        obtain rfl : height = results := hbody
        exact .pure height ()
      · have hperform := carriesEffect_perform hnested hscopes op
        rw [Body.balanced_cons hop] at hbody
        rw [runOps_cons env nested rest hop]
        cases heffect : StackEffect.of env.scopes op with
        | none =>
            rw [heffect] at hbody hperform
            obtain ⟨later, hlater⟩ := hbody
            exact (hperform height later).bind fun _ => ih hlater
        | some effect =>
            rw [heffect] at hbody hperform
            obtain ⟨htakes, hlater⟩ := hbody
            have hcarries : Carries effect.takes effect.leaves (perform env nested op) := hperform
            have habove := hcarries.above (height - effect.takes)
            rw [Nat.add_sub_cancel' htakes, Nat.add_comm effect.leaves] at habove
            exact habove.bind fun _ => ih hlater

/-- However many frames may be added, bodies that are called carry what they are
balanced for. -/
theorem nestedCarry_nestedIn (hscopes : env.scopes.Balanced) (room : Nat) :
    NestedCarry env (nestedIn env room) := by
  induction room with
  | zero =>
      intro run hrun
      cases hrun
  | succ room ih =>
      intro run hrun results body hbody
      cases hrun
      rw [runWithin_eq]
      exact carries_runOps ih hscopes hbody

/-- The discipline of the stack is sound. If the bodies of all routines are balanced, a
call of a routine with enough arguments on the stack never meets a shortage. When it
goes through, its results stand in the place of its arguments. When it fails, what was
below the arguments is still there. -/
theorem call_leaves (env : Environment) (hscopes : env.scopes.Balanced) {ref : SymbolRef}
    {symbol : Symbol} {kind : RoutineKind} {routine : Routine} {body : Body}
    (hsymbol : env.scopes.symbol ref = .ok symbol) (hdefn : symbol.defn = .routine kind routine)
    (hcode : routine.code = .interpreted body) (receiver : Option TypeId) (machine : Machine)
    (harguments : routine.parameters.length ≤ machine.stack.length) :
    Outcome.Leaves (machine.stack.drop routine.parameters.length) kind.resultCount
      (call env ref receiver machine) := by
  have hnested := nestedCarry_nestedIn hscopes (machine.room env)
  have hcarries := carries_callSymbol hnested hscopes hsymbol hdefn hcode receiver
  apply hcarries machine (machine.stack.take routine.parameters.length)
  · rw [List.take_append_drop]
  · rw [List.length_take]
    omega

/-- A function of one parameter, the only symbol of the function's own scope. -/
def functionOfOne (scope : ScopeIndex) (body : Body) : Definition :=
  .routine .function { code := .interpreted body, parameterCount := 1,
                       parameters := [⟨scope, ⟨0⟩⟩], scope := some scope }

/-- A function that adds one. -/
def increment : Symbol where
  name := "increment"
  home := ⟨0⟩
  type := some .int
  defn := functionOfOne ⟨1⟩ [.fetch ⟨⟨1⟩, ⟨0⟩⟩, .push (.int 1), .arithmetic .add, .leave]

/-- A function that calls `increment` two times. -/
def twice : Symbol where
  name := "twice"
  home := ⟨0⟩
  type := some .int
  defn := functionOfOne ⟨2⟩
    [.statement 2, .fetch ⟨⟨2⟩, ⟨0⟩⟩, .call ⟨⟨0⟩, ⟨0⟩⟩, .call ⟨⟨0⟩, ⟨0⟩⟩]

/-- A session with the two functions. -/
def incrementAndTwice : ScopeStore where
  scopes := #[
    { index := ⟨0⟩
      symbols := #[increment, twice]
      names := .node .leaf "increment" ⟨0⟩ (.node .leaf "twice" ⟨1⟩ .leaf)
      order := some #[⟨0⟩, ⟨1⟩]
      ranks := #[some ⟨0⟩, some ⟨1⟩] },
    { index := ⟨1⟩
      symbols := #[{ name := "n", home := ⟨1⟩, type := some .int, defn := .valueParameter }]
      names := .node .leaf "n" ⟨0⟩ .leaf
      order := some #[⟨0⟩]
      ranks := #[some ⟨0⟩] },
    { index := ⟨2⟩
      symbols := #[{ name := "n", home := ⟨2⟩, type := some .int, defn := .valueParameter }]
      names := .node .leaf "n" ⟨0⟩ .leaf
      order := some #[⟨0⟩]
      ranks := #[some ⟨0⟩] }]

theorem incrementAndTwice_balanced : incrementAndTwice.Balanced :=
  ScopeStore.balanced_of_isBalanced (by decide)

theorem call_leaves_twice :
    incrementAndTwice.Balanced ∧ incrementAndTwice.symbol ⟨⟨0⟩, ⟨1⟩⟩ = .ok twice ∧
      Outcome.Leaves [.bool true] 1
        (call { scopes := incrementAndTwice, settings := {} } ⟨⟨0⟩, ⟨1⟩⟩ none
          { stack := [.int 5, .bool true] }) := by
  have hsymbol : incrementAndTwice.symbol ⟨⟨0⟩, ⟨1⟩⟩ = .ok twice := rfl
  have hleaves := @call_leaves { scopes := incrementAndTwice, settings := {} }
    incrementAndTwice_balanced _ _ .function _ _ hsymbol rfl rfl none
    { stack := [.int 5, .bool true] } (by decide)
  exact ⟨incrementAndTwice_balanced, hsymbol, hleaves⟩

end Machine

end ScopeMachine
