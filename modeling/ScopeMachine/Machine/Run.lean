/-
# Running code

A body is run instruction by instruction until it ends or leaves. A call pops
its arguments, runs the body of the routine in a frame of its own, and answers
the declared type of the result without looking at what was pushed.

How deeply calls may nest is settled beforehand: a body is run with a number of
further frames that may be added, and a call that finds none left is refused
before it touches anything. Every run therefore ends, whatever the code.
-/

import ScopeMachine.Machine.Arithmetic
import ScopeMachine.Machine.Native
import ScopeMachine.Machine.Variables

namespace ScopeMachine

namespace Machine

/-- How bodies of called routines are run, if another frame may be added. -/
abbrev Nested := Option (Body → Exec Unit)

/-- The reference behind an address. -/
def resolve (env : Environment) (addr : SymbolAddr) : Exec SymbolRef :=
  ofScopes (env.scopes.resolve addr)

/-- The scope whose variables a frame holds: the routine's own, but for a program,
whose variables are the globals. -/
def frameScope (kind : RoutineKind) (routine : Routine) : Option ScopeIndex :=
  match kind with
  | .program => none
  | _ => routine.scope

/-- Call a routine that has been compiled. -/
def callBody (env : Environment) (nested : Nested) (name : String) (kind : RoutineKind)
    (routine : Routine) (body : Body) : Exec Unit :=
  match nested with
  | none => throw (.callDepthExceeded env.settings.callDepth)
  | some run => do
    let arguments ← popOperands name routine.parameters.length
    let locals := Slots.bind routine.parameters arguments.toList
    announce env .routine fun _ => .ok (.entered name)
    withFrame { scope := frameScope kind routine, locals } (run body)
    announce env .routine fun _ => .ok (.exited name)

/-- Call a symbol, for a member together with the type of the value that it is
called on, and answer the type of the result. -/
def callSymbol (env : Environment) (nested : Nested) (ref : SymbolRef)
    (receiver : Option TypeId) : Exec TypeId := do
  let symbol ← ofScopes (env.scopes.symbol ref)
  let declared := symbol.type.getD .void
  match symbol.defn with
  | .routine kind routine =>
    match routine.code with
    | .native member =>
      match receiver with
      | some type => callMember env member type declared
      | none => throw (.typeMismatch .receiver none)
    | .interpreted body => do
      callBody env nested symbol.name kind routine body
      return declared
    | .declared | .forward => throw (.notARoutine symbol.name)
  | _ => throw (.notARoutine symbol.name)

/-- Begin the statement on a line. -/
def beginStatement (env : Environment) (line : Nat) : Exec Unit := do
  modify fun machine => { machine with line }
  announce env .statement fun _ => .ok (.reached line)

/-- Carry out one instruction. Leaving a routine is up to its body. -/
def perform (env : Environment) (nested : Nested) (op : Op) : Exec Unit :=
  match op with
  | .push literal => push (.ofLiteral literal)
  | .fetch addr => do
    let ref ← resolve env addr
    let value ← fetch env ref
    push value
  | .fetchAddress addr => do
    let ref ← resolve env addr
    let value ← fetchAddress env ref
    push value
  | .store addr => do
    let ref ← resolve env addr
    let value ← pop
    store env ref value
  | .call addr => do
    let ref ← resolve env addr
    let _ ← callSymbol env nested ref none
  | .callMember addr receiver => do
    let ref ← resolve env addr
    let _ ← callSymbol env nested ref (some receiver)
  | .statement line => beginStatement env line
  | .arithmetic operation => arithmetic operation
  | .pop => do
    let _ ← pop
  | .leave => return ()

/-- Carry out the instructions of a body until it ends or leaves. -/
def runOps (env : Environment) (nested : Nested) : Body → Exec Unit
  | [] => return ()
  | .leave :: _ => return ()
  | op :: rest => do
    perform env nested op
    runOps env nested rest

/-- Run a body when `room` further frames may be added. -/
def runWithin (env : Environment) : (room : Nat) → Body → Exec Unit
  | 0, body => runOps env none body
  | room + 1, body => runOps env (some (runWithin env room)) body

/-- How called bodies are run when `room` frames may be added. -/
def nestedIn (env : Environment) : (room : Nat) → Nested
  | 0 => none
  | room + 1 => some (runWithin env room)

/-- How many frames may still be added. -/
def room (env : Environment) (machine : Machine) : Nat :=
  env.settings.callDepth - machine.frames.size

/-- Run a body. -/
def run (env : Environment) (body : Body) : Exec Unit := fun machine =>
  runWithin env (machine.room env) body machine

/-- Call a routine whose arguments have been pushed. -/
def call (env : Environment) (ref : SymbolRef) (receiver : Option TypeId) : Exec TypeId :=
  fun machine => callSymbol env (nestedIn env (machine.room env)) ref receiver machine

/-- Run a program. -/
def execute (env : Environment) (program : SymbolRef) : Exec Unit := do
  let _ ← call env program none

/-- A body that has ended does nothing. -/
@[simp]
theorem runOps_nil (env : Environment) (nested : Nested) :
    runOps env nested [] = pure () := rfl

/-- A body that leaves does nothing more. -/
@[simp]
theorem runOps_leave (env : Environment) (nested : Nested) (rest : Body) :
    runOps env nested (.leave :: rest) = pure () := rfl

/-- A body carries out its first instruction and then the others. -/
theorem runOps_cons (env : Environment) (nested : Nested) {op : Op} (rest : Body)
    (hop : op ≠ .leave) :
    runOps env nested (op :: rest) = (do perform env nested op; runOps env nested rest) := by
  cases op with
  | leave => exact absurd rfl hop
  | _ => rfl

/-- Running a body and running called bodies agree on the frames left. -/
theorem runWithin_eq (env : Environment) (room : Nat) (body : Body) :
    runWithin env room body = runOps env (nestedIn env room) body := by
  cases room <;> rfl

end Machine

end ScopeMachine
