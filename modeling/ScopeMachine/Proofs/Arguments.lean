/-
# Arguments of a call

The arguments of a routine are pushed in the order of its parameters and come off the stack
in the opposite order. When the body begins they are bound in a frame of its own, each to the
parameter it was pushed for, and everything below is as it was. Frames of older activations
bind the same parameters, and the newest of them is the one that is read. A call that finds
too few arguments has taken them, but it begins nothing.
-/

import ScopeMachine.Proofs.Forwarding
import ScopeMachine.Proofs.Stack.Operations
import ScopeMachine.Proofs.Stepping

namespace ScopeMachine

open Machine

/-! ## What is bound -/

namespace Slots

/-- The first argument is bound last. -/
theorem get?_bind_cons (parameter : SymbolRef) (parameters : List SymbolRef) (argument : Value)
    (arguments : List Value) (symbol : SymbolRef) :
    (bind (parameter :: parameters) (argument :: arguments)).get? symbol =
      if symbol = parameter then some argument else (bind parameters arguments).get? symbol := by
  show ((bind parameters arguments).set parameter argument).get? symbol = _
  split
  case isTrue hsame => rw [hsame, get?_set_self]
  case isFalse hother => exact get?_set_of_ne _ argument hother

/-- Distinct parameters have their own arguments, and nothing else is bound. -/
theorem get?_bind_eq_some_iff {parameters : List SymbolRef} (hnodup : parameters.Nodup)
    (arguments : List Value) {symbol : SymbolRef} {value : Value} :
    (bind parameters arguments).get? symbol = some value ↔
      ∃ place : Nat, parameters[place]? = some symbol ∧ arguments[place]? = some value := by
  induction parameters generalizing arguments with
  | nil => simp [bind, get?]
  | cons parameter others ih =>
      obtain ⟨hnew, hothers⟩ := List.nodup_cons.mp hnodup
      cases arguments with
      | nil => simp [bind, get?]
      | cons argument rest =>
          rw [get?_bind_cons]
          by_cases hsame : symbol = parameter
          · -- The parameter does not stand in a later place.
            subst hsame
            rw [if_pos rfl, Option.some_inj]
            constructor
            · rintro rfl
              exact ⟨0, rfl, rfl⟩
            · rintro ⟨place, hplace, hvalue⟩
              cases place with
              | zero => exact Option.some.inj hvalue
              | succ place =>
                  have hlater : others[place]? = some symbol := hplace
                  exact absurd (List.mem_of_getElem? hlater) hnew
          · rw [if_neg hsame, ih hothers]
            constructor
            · rintro ⟨place, hplace, hvalue⟩
              exact ⟨place + 1, hplace, hvalue⟩
            · rintro ⟨place, hplace, hvalue⟩
              cases place with
              | zero => exact absurd (Option.some.inj hplace).symm hsame
              | succ place => exact ⟨place, hplace, hvalue⟩

end Slots

namespace Machine

/-- What the body of a routine finds when it begins: the arguments are off the stack and bound
in a new frame, each to its parameter, and a parameter that holds its argument is read as that
argument. The frames below and the globals are as they were. -/
structure Begins (env : Environment) (machine : Machine) (own : ScopeIndex)
    (parameters : List SymbolRef) (arguments below : List Value) (inside : Machine) : Prop where
  stack : inside.stack = below
  globals : inside.globals = machine.globals
  frames : ∃ frame, inside.frames = machine.frames.push frame ∧ frame.scope = some own ∧
    ∀ symbol value, frame.locals.get? symbol = some value ↔
      ∃ place : Nat, parameters[place]? = some symbol ∧ arguments[place]? = some value
  fetched : ∀ (place : Nat) parameter argument bound, parameters[place]? = some parameter →
    arguments[place]? = some argument → env.scopes.symbol parameter = .ok bound →
      bound.defn = .valueParameter →
        (∀ answer after, fetch env parameter inside = .ok answer after → answer = argument) ∧
        (env.Announces .fetch machine.types →
          ∃ sink, fetch env parameter inside = .ok argument (inside.withSink sink))

variable {env : Environment} {ref : SymbolRef} {machine : Machine} {callee : Compiled}
variable {arguments below : List Value}

/-! ## Entering a routine -/

theorem Compiled.enter_eq_ok (env : Environment) (callee : Compiled)
    (hstack : machine.stack = arguments.reverse ++ below)
    (hcount : arguments.length = callee.routine.parameters.length) :
    ∃ sink, callee.enter env machine = .ok ()
      (({ machine with stack := below }.withSink sink).entering
        { scope := frameScope callee.kind callee.routine
          locals := Slots.bind callee.routine.parameters arguments }) := by
  obtain ⟨operands, rfl, hpop⟩ := popOperands_eq_ok callee.symbol.name hstack hcount
  obtain ⟨sink, hsink⟩ : ∃ sink, announce env .routine
      (fun _ => .ok (.entered callee.symbol.name)) { machine with stack := below } =
        .ok () ({ machine with stack := below }.withSink sink) :=
    exists_sink_announce _ fun _ => ⟨_, rfl⟩
  refine ⟨sink, ?_⟩
  simp only [Compiled.enter, bind, EStateM.bind, hpop, hsink]
  rfl

theorem Compiled.enter_eq_error (env : Environment) (callee : Compiled)
    (hshort : machine.stack.length < callee.routine.parameters.length) :
    callee.enter env machine =
      .error (.arityMismatch callee.symbol.name callee.routine.parameters.length
        machine.stack.length) { machine with stack := [] } := by
  have hpop := popOperands_eq_error callee.symbol.name hshort
  simp only [Compiled.enter, bind, EStateM.bind, hpop]

/-- Where there is room for a frame, a call enters the routine and runs its body. -/
theorem forget_call_of_room (hcompiled : compiled? env ref = some callee)
    (hroom : machine.frames.size < env.settings.callDepth) (receiver : Option TypeId) :
    Outcome.forget (call env ref receiver machine) =
      match callee.enter env machine with
      | .error error here => .error error here
      | .ok _ inside =>
        match run env callee.body inside with
        | .ok _ here => exit env callee.symbol.name here
        | .error error here => .error error here.leaving := by
  obtain ⟨fewer, hfewer⟩ : ∃ fewer, machine.room env = fewer + 1 :=
    ⟨env.settings.callDepth - machine.frames.size - 1, by unfold Machine.room; omega⟩
  rw [call, hfewer, nestedIn, forget_callSymbol hcompiled, callBody_some]
  rcases callee.enter_cases env machine with ⟨error, here, henter, -⟩ | ⟨inside, henter, hinside⟩
  · rw [henter]
  · obtain rfl : inside.room env = fewer := by
      unfold Machine.room at hfewer ⊢
      omega
    rw [henter]
    rfl

/-- A machine that has entered the frame of a routine with distinct parameters begins its
body with the arguments bound. -/
theorem Begins.of_entering (env : Environment) {own : ScopeIndex} {parameters : List SymbolRef}
    (hnodup : parameters.Nodup) (hown : ∀ parameter ∈ parameters, parameter.scope = own)
    (machine : Machine) (arguments below : List Value) (sink : Sink) :
    Begins env machine own parameters arguments below
      (({ machine with stack := below }.withSink sink).entering
        { scope := some own, locals := Slots.bind parameters arguments }) := by
  generalize hinside : ({ machine with stack := below }.withSink sink).entering
    { scope := some own, locals := Slots.bind parameters arguments } = inside
  have hheld {place : Nat} {parameter : SymbolRef} {argument : Value}
      (hparameter : parameters[place]? = some parameter)
      (hargument : arguments[place]? = some argument) :
      inside.slot? (inside.ownAddress parameter) = some argument := by
    have hscope := hown parameter (List.mem_of_getElem? hparameter)
    have hlast : inside.frameScopes.getLast? = some (some parameter.scope) := by
      rw [← hinside, frameScopes_entering, List.getLast?_concat, hscope]
    rw [ownAddress_of_last hlast, slot?_frame, ← Array.back?_eq_getElem?, ← hinside]
    show ((machine.frames.push _).back?).bind _ = _
    rw [Array.back?_push]
    exact (Slots.get?_bind_eq_some_iff hnodup arguments).mpr ⟨place, hparameter, hargument⟩
  have haddress {bound : Symbol} (hdefn : bound.defn = .valueParameter) (parameter : SymbolRef) :
      inside.addressOf bound.defn parameter = inside.ownAddress parameter := by
    rw [hdefn]
    rfl
  constructor
  case stack => rw [← hinside]; rfl
  case globals => rw [← hinside]; rfl
  case frames =>
    refine ⟨_, by rw [← hinside]; rfl, rfl, fun symbol value => ?_⟩
    exact Slots.get?_bind_eq_some_iff hnodup arguments
  case fetched =>
    intro place parameter argument bound hparameter hargument hbound hdefn
    have hconstant : bound.defn ≠ .constant := by simp [hdefn]
    have hvalue := hheld hparameter hargument
    constructor
    · intro answer after hfetch
      exact fetch_answers hbound (haddress hdefn parameter) hconstant hvalue hfetch
    · intro hannounces
      apply fetch_of_slot hbound (haddress hdefn parameter) hconstant hvalue
      rw [← hinside]
      exact hannounces

/-- Where there is room for a frame, a call of a procedure or a function binds the values on
top of the stack to the parameters, in the order in which they were pushed, and then begins
the body. With fewer values than parameters it is refused before it begins anything, and says
how many it found. -/
theorem call_binds_arguments (env : Environment) (machine : Machine) {ref : SymbolRef}
    {callee : Compiled} {own : ScopeIndex} (receiver : Option TypeId)
    (hcompiled : compiled? env ref = some callee) (hkind : callee.kind ≠ .program)
    (hscope : callee.routine.scope = some own)
    (hown : ∀ parameter ∈ callee.routine.parameters, parameter.scope = own)
    (hnodup : callee.routine.parameters.Nodup)
    (hroom : machine.frames.size < env.settings.callDepth) :
    (∀ arguments below, arguments.length = callee.routine.parameters.length →
      machine.stack = arguments.reverse ++ below →
        ∃ inside, Begins env machine own callee.routine.parameters arguments below inside ∧
          (∀ rest callers, Point.step env (.calling ref receiver rest callers machine) =
            .running callee.body (⟨callee.symbol.name, rest⟩ :: callers) inside) ∧
          Outcome.forget (call env ref receiver machine) =
            match run env callee.body inside with
            | .ok _ here => exit env callee.symbol.name here
            | .error error here => .error error here.leaving) ∧
    (machine.stack.length < callee.routine.parameters.length →
      let shortage : EvalError := .arityMismatch callee.symbol.name
        callee.routine.parameters.length machine.stack.length
      (∀ rest callers, Point.step env (.calling ref receiver rest callers machine) =
        .failing shortage callers { machine with stack := [] }) ∧
      call env ref receiver machine = .error shortage { machine with stack := [] }) := by
  have hcall := forget_call_of_room hcompiled hroom receiver
  constructor
  · intro arguments below hcount hstack
    have hframe : frameScope callee.kind callee.routine = some own := by
      cases hcallee : callee.kind with
      | program => exact absurd hcallee hkind
      | procedure | function => exact hscope
    obtain ⟨sink, henter⟩ := callee.enter_eq_ok env hstack hcount
    rw [hframe] at henter
    refine ⟨_, .of_entering env hnodup hown machine arguments below sink, ?_, ?_⟩
    · intro rest callers
      simp only [Point.step, Point.call, hcompiled, if_pos hroom, henter]
    · rw [hcall, henter]
  · intro hshort shortage
    have henter := callee.enter_eq_error env hshort
    constructor
    · intro rest callers
      simp only [Point.step, Point.call, hcompiled, if_pos hroom, henter]
      rfl
    · rw [henter] at hcall
      cases hdone : call env ref receiver machine with
      | ok answer here =>
          rw [hdone] at hcall
          cases hcall
      | error error here =>
          rw [hdone] at hcall
          cases hcall
          rfl

/-- A session with a function that takes `b` from `a`. -/
def subtracting : Environment where
  scopes := ⟨#[
    { index := ⟨0⟩
      symbols := #[
        { name := "minus", home := ⟨0⟩, type := some .int
          defn := .routine .function
            { code := .interpreted [.fetch ⟨⟨1⟩, ⟨0⟩⟩, .fetch ⟨⟨1⟩, ⟨1⟩⟩, .arithmetic .sub]
              parameterCount := 2, parameters := [⟨⟨1⟩, ⟨0⟩⟩, ⟨⟨1⟩, ⟨1⟩⟩], scope := some ⟨1⟩ } }]
      names := .node .leaf "minus" ⟨0⟩ .leaf
      order := some #[⟨0⟩]
      ranks := #[some ⟨0⟩] },
    { index := ⟨1⟩
      symbols := #[
        { name := "a", home := ⟨1⟩, type := some .int, defn := .valueParameter },
        { name := "b", home := ⟨1⟩, type := some .int, defn := .valueParameter }]
      names := .node .leaf "a" ⟨0⟩ (.node .leaf "b" ⟨1⟩ .leaf)
      order := some #[⟨0⟩, ⟨1⟩]
      ranks := #[some ⟨0⟩, some ⟨1⟩] }]⟩
  settings := {}

/-- A machine in an activation of that function for 1 and 2, with some values pushed. -/
def subtractingAgain (stack : List Value) : Machine where
  stack := stack
  frames := #[{ scope := some ⟨1⟩
                locals := Slots.bind [⟨⟨1⟩, ⟨0⟩⟩, ⟨⟨1⟩, ⟨1⟩⟩] [.int 1, .int 2] }]

theorem call_binds_arguments_again :
    let parameters : List SymbolRef := [⟨⟨1⟩, ⟨0⟩⟩, ⟨⟨1⟩, ⟨1⟩⟩]
    (∃ inside, Begins subtracting (subtractingAgain [.int 4, .int 9, .bool true]) ⟨1⟩ parameters
        [.int 9, .int 4] [.bool true] inside ∧
      inside.frames.size = 2 ∧ ∃ sink,
        fetch subtracting ⟨⟨1⟩, ⟨0⟩⟩ inside = .ok (.int 9) (inside.withSink sink)) ∧
    call subtracting ⟨⟨0⟩, ⟨0⟩⟩ none (subtractingAgain [.int 4]) =
      .error (.arityMismatch "minus" 2 1) (subtractingAgain []) := by
  intro parameters
  have hown : ∀ parameter ∈ parameters, parameter.scope = ⟨1⟩ := by decide
  have hnodup : parameters.Nodup := by decide
  have hcompiled : compiled? subtracting ⟨⟨0⟩, ⟨0⟩⟩ = some _ := rfl
  constructor
  · obtain ⟨inside, hbegins, -⟩ := (call_binds_arguments subtracting
      (subtractingAgain [.int 4, .int 9, .bool true]) none hcompiled nofun rfl hown hnodup
      (by decide)).1 [.int 9, .int 4] [.bool true] rfl rfl
    obtain ⟨frame, hframes, -⟩ := hbegins.frames
    refine ⟨inside, hbegins, ?_, ?_⟩
    · rw [hframes, Array.size_push]
      rfl
    · exact (hbegins.fetched 0 _ _ _ rfl rfl rfl rfl).2 nofun
  · exact ((call_binds_arguments subtracting (subtractingAgain [.int 4]) none hcompiled
      nofun rfl hown hnodup (by decide)).2 (by decide)).2

end Machine

end ScopeMachine
