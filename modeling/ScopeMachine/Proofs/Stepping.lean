/-
# Runs point by point

A run is carried out here point by point, without settling beforehand how deeply
calls may nest. A call counts the frames that are active and is refused if there are
as many as the settings allow; nothing else stands in the way of a recursion without
end. Going from point to point comes to the same outcomes as running with the room
that is left, by induction on that room.
-/

import Mathlib.Logic.Function.Iterate
import ScopeMachine.Proofs.Frames

namespace ScopeMachine

open Machine Outcome

/-- An outcome without its answer. -/
def Outcome.forget {α : Type} : Outcome α → Outcome Unit
  | .ok _ after => .ok () after
  | .error error after => .error error after

namespace Machine

/-- A routine that has been compiled, with the symbol that it is called by. -/
structure Compiled where
  symbol : Symbol
  kind : RoutineKind
  routine : Routine
  body : Body

/-- The compiled routine behind a reference, if there is one. -/
def compiled? (env : Environment) (ref : SymbolRef) : Option Compiled :=
  match env.scopes.symbol ref with
  | .error _ => none
  | .ok symbol =>
    match symbol.defn with
    | .routine kind routine =>
      match routine.code with
      | .interpreted body => some ⟨symbol, kind, routine, body⟩
      | _ => none
    | _ => none

/-- Pop the arguments of a routine, announce it and enter its frame. -/
def Compiled.enter (env : Environment) (callee : Compiled) : Exec Unit := do
  let arguments ← popOperands callee.symbol.name callee.routine.parameters.length
  announce env .routine fun _ => .ok (.entered callee.symbol.name)
  modify fun machine => machine.entering
    { scope := frameScope callee.kind callee.routine
      locals := Slots.bind callee.routine.parameters arguments.toList }

/-- Leave the frame of a routine and announce that. -/
def exit (env : Environment) (name : String) : Exec Unit := do
  modify leaving
  announce env .routine fun _ => .ok (.exited name)

/-- The type that a member is called on. -/
def receiver? : Op → Option TypeId
  | .callMember _ receiver => some receiver
  | _ => none

/-- A routine that is active, by its name, and what its caller goes on with. -/
structure Caller where
  routine : String
  rest : Body

/-- A point of a run, with the callers of the innermost body. -/
inductive Point where
  /-- A body is run. -/
  | running (rest : Body) (callers : List Caller) (machine : Machine)
  /-- A body calls a symbol. -/
  | calling (ref : SymbolRef) (receiver : Option TypeId) (rest : Body) (callers : List Caller)
    (machine : Machine)
  /-- An error takes away the frames that the run has added. -/
  | failing (error : EvalError) (callers : List Caller) (machine : Machine)
  /-- The run has ended. -/
  | finished (outcome : Outcome Unit)

namespace Point

/-- The machine at a point. -/
def machine : Point → Machine
  | running _ _ machine => machine
  | calling _ _ _ _ machine => machine
  | failing _ _ machine => machine
  | finished outcome => Outcome.machine outcome

/-- Go on with a body if something went through. -/
def proceed {α : Type} (rest : Body) (callers : List Caller) : Outcome α → Point
  | .ok _ after => running rest callers after
  | .error error after => failing error callers after

/-- Go back from a body that has ended. -/
def goBack (env : Environment) (callers : List Caller) (machine : Machine) : Point :=
  match callers with
  | [] => finished (.ok () machine)
  | caller :: others => proceed caller.rest others (exit env caller.routine machine)

/-- Go on after the outcome of a body. -/
def after (env : Environment) (callers : List Caller) : Outcome Unit → Point
  | .ok _ here => goBack env callers here
  | .error error here => failing error callers here

/-- Call a symbol, which adds a frame for a compiled routine if there may be one more. -/
def call (env : Environment) (ref : SymbolRef) (receiver : Option TypeId) (rest : Body)
    (callers : List Caller) (machine : Machine) : Point :=
  match compiled? env ref with
  | none => proceed rest callers (callSymbol env none ref receiver machine)
  | some callee =>
    if machine.frames.size < env.settings.callDepth then
      match callee.enter env machine with
      | .ok _ inside => running callee.body (⟨callee.symbol.name, rest⟩ :: callers) inside
      | .error error here => failing error callers here
    else failing (.callDepthExceeded env.settings.callDepth) callers machine

/-- Carry out an instruction, up to the call if it is one. -/
def instruction (env : Environment) (op : Op) (rest : Body) (callers : List Caller)
    (machine : Machine) : Point :=
  match callee? op with
  | none => proceed rest callers (perform env none op machine)
  | some addr =>
    match env.scopes.resolve addr with
    | .ok ref => calling ref (receiver? op) rest callers machine
    | .error refusal => failing (.scope refusal) callers machine

/-- The next point of a run. -/
def step (env : Environment) : Point → Point
  | running [] callers machine => goBack env callers machine
  | running (.leave :: _) callers machine => goBack env callers machine
  | running (op :: rest) callers machine => instruction env op rest callers machine
  | calling ref receiver rest callers machine => call env ref receiver rest callers machine
  | failing error [] machine => finished (.error error machine)
  | failing error (_ :: callers) machine => failing error callers machine.leaving
  | finished outcome => finished outcome

/-- A run comes from one point to another. -/
def Comes (env : Environment) (point later : Point) : Prop :=
  ∃ count, (step env)^[count] point = later

end Point

variable {env : Environment} {ref : SymbolRef} {machine : Machine} {callee : Compiled}

/-! ## Calls of compiled routines and of others -/

theorem compiled?_eq_some (hcompiled : compiled? env ref = some callee) :
    env.scopes.symbol ref = .ok callee.symbol ∧
      callee.symbol.defn = .routine callee.kind callee.routine ∧
      callee.routine.code = .interpreted callee.body := by
  unfold compiled? at hcompiled
  split at hcompiled
  · cases hcompiled
  · split at hcompiled
    · split at hcompiled
      · cases hcompiled
        exact ⟨‹_›, ‹_›, ‹_›⟩
      · cases hcompiled
    · cases hcompiled

/-- A call of anything but a compiled routine depends on the symbols only. It has no use for
the settings or for room. -/
theorem callSymbol_of_not_compiled {other : Environment} (hscopes : other.scopes = env.scopes)
    (hplaces : other.places = env.places) (hcompiled : compiled? env ref = none)
    (nested nested' : Nested) (receiver : Option TypeId) :
    callSymbol other nested ref receiver machine =
      callSymbol env nested' ref receiver machine := by
  have hmember (member : Member) (type declared : TypeId) :
      callMember other member type declared = callMember env member type declared := by
    have hshown : shownPlace other = shownPlace env := by
      funext here
      simp only [shownPlace, hplaces]
    cases member <;> simp only [callMember, toStrMember, hshown]
  unfold compiled? at hcompiled
  unfold callSymbol
  rw [hscopes]
  cases hsymbol : env.scopes.symbol ref with
  | error refusal => simp only [ofScopes_error_bind]
  | ok symbol =>
      simp only [hsymbol] at hcompiled
      simp only [ofScopes_ok_bind]
      cases hdefn : symbol.defn with
      | routine kind routine =>
          simp only [hdefn] at hcompiled
          cases hcode : routine.code with
          | interpreted body => simp [hcode] at hcompiled
          | native member => simp only [hcode, hmember]
          | _ => simp only [hcode]
      | _ => rfl

/-- A call of a compiled routine runs its body, whatever it answers then. -/
theorem forget_callSymbol (hcompiled : compiled? env ref = some callee) (nested : Nested)
    (receiver : Option TypeId) :
    Outcome.forget (callSymbol env nested ref receiver machine) =
      callBody env nested callee.symbol.name callee.kind callee.routine callee.body machine := by
  obtain ⟨hsymbol, hdefn, hcode⟩ := compiled?_eq_some hcompiled
  unfold callSymbol
  simp only [hsymbol, ofScopes_ok_bind, hdefn, hcode]
  simp only [bind, EStateM.bind]
  cases callBody env nested callee.symbol.name callee.kind callee.routine callee.body machine <;>
    rfl

/-- What runs in a frame runs between its entry and the way out of it. -/
theorem withFrame_eq {α : Type} (frame : Frame) (work : Exec α) (machine : Machine) :
    withFrame frame work machine =
      match work (machine.entering frame) with
      | .ok answer here => .ok answer here.leaving
      | .error error here => .error error here.leaving := rfl

/-- A body runs between the entry of its frame and the exit from it. -/
theorem callBody_some (run : Body → Exec Unit) (callee : Compiled) (machine : Machine) :
    callBody env (some run) callee.symbol.name callee.kind callee.routine callee.body machine =
      match callee.enter env machine with
      | .error error here => .error error here
      | .ok _ inside =>
        match run callee.body inside with
        | .ok _ here => exit env callee.symbol.name here
        | .error error here => .error error here.leaving := by
  have hmodify (change : Machine → Machine) (here : Machine) :
      (modify change : Exec Unit) here = .ok () (change here) := rfl
  simp only [callBody, Compiled.enter, bind, EStateM.bind, hmodify]
  cases popOperands callee.symbol.name callee.routine.parameters.length machine with
  | error error here => rfl
  | ok arguments taken =>
      dsimp only
      cases announce env .routine (fun _ => .ok (.entered callee.symbol.name)) taken with
      | error error here => rfl
      | ok _ announced =>
          simp only [withFrame_eq]
          cases run callee.body (announced.entering _) <;> rfl

/-- What calls nothing has no use for room. -/
theorem perform_of_callee?_eq_none {op : Op} (hcallee : callee? op = none) (nested : Nested) :
    perform env nested op machine = perform env none op machine := by
  cases op with
  | call | callMember => cases hcallee
  | _ => rfl

/-- An instruction that calls an address calls the symbol behind it. -/
theorem forget_perform {op : Op} {addr : SymbolAddr} (hcallee : callee? op = some addr)
    (nested : Nested) :
    Outcome.forget (perform env nested op machine) =
      match env.scopes.resolve addr with
      | .error refusal => .error (.scope refusal) machine
      | .ok ref => Outcome.forget (callSymbol env nested ref (receiver? op) machine) := by
  have hcall (receiver : Option TypeId) :
      Outcome.forget ((do let ref ← resolve env addr; let _ ← callSymbol env nested ref receiver)
        machine) =
      match env.scopes.resolve addr with
      | .error refusal => .error (.scope refusal) machine
      | .ok ref => Outcome.forget (callSymbol env nested ref receiver machine) := by
    unfold resolve
    cases env.scopes.resolve addr with
    | error refusal => rfl
    | ok ref =>
        simp only [ofScopes_ok_bind]
        simp only [bind, EStateM.bind]
        cases callSymbol env nested ref receiver machine <;> rfl
  cases op with
  | call | callMember =>
      cases hcallee
      exact hcall _
  | _ => cases hcallee

/-! ## Entry and exit -/

section Frames

variable (env machine)

theorem exists_exit (name : String) :
    ∃ here, exit env name machine = .ok () here ∧ here.frames = machine.frames.pop :=
  exists_announce env machine.leaving .routine (.exited name)

/-- Entering a routine adds a frame unless there are too few arguments. -/
theorem Compiled.enter_cases (callee : Compiled) :
    (∃ error here, callee.enter env machine = .error error here ∧
        here.frames = machine.frames) ∨
      ∃ inside, callee.enter env machine = .ok () inside ∧
        inside.frames.size = machine.frames.size + 1 := by
  have htaken := frames_popOperands machine callee.symbol.name callee.routine.parameters.length
  simp only [Compiled.enter, bind, EStateM.bind]
  cases hpop : popOperands callee.symbol.name callee.routine.parameters.length machine with
  | error error here =>
      rw [hpop] at htaken
      exact .inl ⟨error, here, rfl, htaken⟩
  | ok arguments taken =>
      rw [hpop] at htaken
      obtain ⟨announced, hannounced, hframes⟩ :=
        exists_announce env taken .routine (.entered callee.symbol.name)
      dsimp only
      rw [hannounced]
      refine .inr ⟨_, rfl, ?_⟩
      show (announced.frames.push _).size = _
      rw [hframes, Array.size_push]
      exact congrArg (fun frames => Array.size frames + 1) htaken

end Frames

/-! ## From point to point -/

namespace Point

variable {point later : Point} {callers : List Caller} {rest : Body}

theorem step_running {op : Op} (hop : op ≠ .leave) :
    step env (.running (op :: rest) callers machine) =
      instruction env op rest callers machine := by
  cases op with
  | leave => exact absurd rfl hop
  | _ => rfl

theorem machine_proceed {α : Type} (outcome : Outcome α) :
    (proceed rest callers outcome).machine = Outcome.machine outcome := by
  cases outcome <;> rfl

/-- How a body goes on does not depend on the answer. -/
theorem proceed_forget {α : Type} (outcome : Outcome α) :
    proceed rest callers (Outcome.forget outcome) = proceed rest callers outcome := by
  cases outcome <;> rfl

theorem Comes.refl (point : Point) : Comes env point point :=
  ⟨0, rfl⟩

theorem Comes.of_step (hcomes : Comes env (step env point) later) : Comes env point later := by
  obtain ⟨count, hcount⟩ := hcomes
  exact ⟨count + 1, hcount⟩

theorem Comes.trans {middle : Point} (hfirst : Comes env point middle)
    (hsecond : Comes env middle later) : Comes env point later := by
  obtain ⟨first, rfl⟩ := hfirst
  obtain ⟨second, rfl⟩ := hsecond
  exact ⟨second + first, Function.iterate_add_apply _ _ _ _⟩

/-- A run ends with one outcome only. -/
theorem Comes.finished_unique {first second : Outcome Unit}
    (hfirst : Comes env point (.finished first)) (hsecond : Comes env point (.finished second)) :
    first = second := by
  have hstays (outcome : Outcome Unit) (count : Nat) :
      (step env)^[count] (finished outcome) = finished outcome :=
    Function.iterate_fixed rfl count
  obtain ⟨before, hbefore⟩ := hfirst
  obtain ⟨later, hlater⟩ := hsecond
  have hboth : (step env)^[later + before] point = (step env)^[before + later] point := by
    rw [Nat.add_comm]
  rw [Function.iterate_add_apply, hbefore, hstays, Function.iterate_add_apply, hlater,
    hstays] at hboth
  exact Point.finished.inj hboth

/-- An error takes away one frame for each caller. -/
theorem comes_of_failing (error : EvalError) (callers : List Caller) (machine : Machine) :
    Comes env (.failing error callers machine)
      (.finished (.error error (leaving^[callers.length] machine))) := by
  induction callers generalizing machine with
  | nil => exact .of_step (.refl _)
  | cons caller others ih => exact .of_step (ih machine.leaving)

/-! ## A run point by point comes to what a run with room comes to -/

/-- Bodies come to their outcomes where some frames may still be added. -/
def BodiesCome (env : Environment) (room : Nat) : Prop :=
  ∀ (body : Body) (callers : List Caller) (machine : Machine), machine.room env = room →
    Comes env (.running body callers machine) (after env callers (runWithin env room body machine))

section Room

variable {room : Nat} (hroom : machine.room env = room)
  (hbodies : ∀ fewer, room = fewer + 1 → BodiesCome env fewer)

include hroom hbodies

/-- A call comes to its outcome if the bodies that it can run do. -/
theorem comes_of_calling (ref : SymbolRef) (receiver : Option TypeId) (rest : Body)
    (callers : List Caller) :
    Comes env (.calling ref receiver rest callers machine)
      (proceed rest callers (callSymbol env (nestedIn env room) ref receiver machine)) := by
  apply Comes.of_step
  show Comes env (call env ref receiver rest callers machine) _
  unfold call
  cases hcompiled : compiled? env ref with
  | none =>
      rw [callSymbol_of_not_compiled rfl rfl hcompiled (nestedIn env room) none]
      exact .refl _
  | some callee =>
      dsimp only
      rw [← proceed_forget, forget_callSymbol hcompiled]
      cases room with
      | zero =>
          have hfull : ¬ machine.frames.size < env.settings.callDepth := by
            unfold Machine.room at hroom
            omega
          simp only [if_neg hfull]
          exact .refl _
      | succ fewer =>
          have hless : machine.frames.size < env.settings.callDepth := by
            unfold Machine.room at hroom
            omega
          simp only [if_pos hless, nestedIn, callBody_some]
          rcases callee.enter_cases env machine with
            ⟨error, here, henter, -⟩ | ⟨inside, henter, hinside⟩
          · rw [henter]
            exact .refl _
          · have hfewer : inside.room env = fewer := by
              unfold Machine.room at hroom ⊢
              omega
            have hbody := hbodies fewer rfl callee.body (⟨callee.symbol.name, rest⟩ :: callers)
              inside hfewer
            simp only [henter]
            apply hbody.trans
            -- Either way the innermost caller goes on, at once or after its frame is gone.
            cases runWithin env fewer callee.body inside with
            | ok answer here => exact .refl _
            | error error here => exact .of_step (.refl _)

/-- An instruction comes to its outcome if the bodies that it can call do. -/
theorem comes_of_instruction (op : Op) (rest : Body) (callers : List Caller) :
    Comes env (instruction env op rest callers machine)
      (proceed rest callers (perform env (nestedIn env room) op machine)) := by
  unfold instruction
  cases hcallee : callee? op with
  | none =>
      rw [perform_of_callee?_eq_none hcallee (nestedIn env room)]
      exact .refl _
  | some addr =>
      dsimp only
      rw [← proceed_forget (perform env (nestedIn env room) op machine), forget_perform hcallee]
      cases env.scopes.resolve addr with
      | error refusal => exact .refl _
      | ok ref =>
          rw [proceed_forget]
          exact comes_of_calling hroom hbodies ref (receiver? op) rest callers

/-- A body comes to its outcome if the bodies that it can call do. -/
theorem comes_of_running (body : Body) (callers : List Caller) :
    Comes env (.running body callers machine)
      (after env callers (runWithin env room body machine)) := by
  rw [runWithin_eq]
  induction body generalizing machine with
  | nil => exact .of_step (.refl _)
  | cons op rest ih =>
      by_cases hop : op = .leave
      · subst hop
        exact .of_step (.refl _)
      · apply Comes.of_step
        rw [step_running hop, runOps_cons env _ rest hop]
        simp only [bind, EStateM.bind]
        apply (comes_of_instruction hroom hbodies op rest callers).trans
        have hsize := size_perform env room machine op
        cases hperform : perform env (nestedIn env room) op machine with
        | error error here => exact .refl _
        | ok _ here =>
            rw [hperform] at hsize
            have hhere : here.room env = room := by
              rw [← hroom, Machine.room, Machine.room]
              exact congrArg _ hsize
            exact ih hhere

end Room

/-- By induction on the room, bodies come to their outcomes. -/
theorem bodiesCome (env : Environment) (room : Nat) : BodiesCome env room := by
  induction room with
  | zero =>
      intro body callers machine hroom
      exact comes_of_running hroom nofun body callers
  | succ room ih =>
      intro body callers machine hroom
      apply comes_of_running hroom
      intro fewer hfewer
      cases hfewer
      exact ih

end Point

/-! ## Runs and calls -/

open Point

theorem comes_of_run (env : Environment) (body : Body) (machine : Machine) :
    Comes env (.running body [] machine) (.finished (run env body machine)) := by
  apply (bodiesCome env (machine.room env) body [] machine rfl).trans
  show Comes env (after env [] (run env body machine)) _
  cases run env body machine with
  | ok answer here => exact .refl _
  | error error here => exact .of_step (.refl _)

theorem comes_of_call (env : Environment) (ref : SymbolRef) (receiver : Option TypeId)
    (machine : Machine) :
    Comes env (.calling ref receiver [] [] machine)
      (.finished (Outcome.forget (call env ref receiver machine))) := by
  apply (comes_of_calling rfl (fun fewer _ => bodiesCome env fewer) ref receiver [] []).trans
  show Comes env (proceed [] [] (call env ref receiver machine)) _
  cases call env ref receiver machine <;> exact .of_step (.refl _)

theorem execute_eq (env : Environment) (program : SymbolRef) (machine : Machine) :
    execute env program machine = Outcome.forget (call env program none machine) := by
  unfold execute
  simp only [bind, EStateM.bind]
  cases call env program none machine <;> rfl

end Machine

end ScopeMachine
