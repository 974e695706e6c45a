/-
# Requests to a machine

Whoever holds a machine can push and pop values, define globals, fetch and store
variables, run code, call routines and open streams, in any order and whether or not
what came before went through. Requests are data here, so that sequences of them can
be spoken of. The machine answers every request, with a result or an error, and goes
on with the next one as that left it.
-/

import ScopeMachine.Proofs.Agreement
import ScopeMachine.Proofs.Reach

namespace ScopeMachine.Machine

/-- What a machine can be asked to do. -/
inductive Request where
  | push (value : Value)
  | pop
  | top
  | define (ref : SymbolRef) (value : Value)
  | fetch (ref : SymbolRef)
  | store (ref : SymbolRef) (value : Value)
  | task (work : Task)
  | execute (program : SymbolRef)
  | newStream

namespace Request

/-- Do what is asked. The result is left out. -/
def perform (env : Environment) : Request → Exec Unit
  | .push value => Machine.push value
  | .pop => do let _ ← Machine.pop
  | .top => do let _ ← Machine.top
  | .define ref value => Machine.define ref value
  | .fetch ref => do let _ ← Machine.fetch env ref
  | .store ref value => Machine.store env ref value
  | .task work => do let _ ← work.perform env
  | .execute program => Machine.execute env program
  | .newStream => do let _ ← Machine.newStream

/-- The machine after a request, whether it went through or not. -/
def after (env : Environment) (machine : Machine) (request : Request) : Machine :=
  Outcome.machine (request.perform env machine)

end Request

/-- The machine after requests one after the other. -/
def serve (env : Environment) (machine : Machine) (requests : List Request) : Machine :=
  requests.foldl (Request.after env) machine

/-- What every request keeps is kept by any number of them. -/
theorem serve_of_after {env : Environment} {holds : Machine → Prop}
    (hafter : ∀ machine request, holds machine → holds (Request.after env machine request))
    {machine : Machine} (hholds : holds machine) (requests : List Request) :
    holds (serve env machine requests) := by
  induction requests generalizing machine with
  | nil => exact hholds
  | cons request rest ih => exact ih (hafter machine request hholds)

/-- The machine that is left does not depend on whether the result is looked at. -/
@[simp]
theorem machine_andReturn {α : Type} (work : Exec α) (machine : Machine) :
    Outcome.machine ((do let _ ← work : Exec Unit) machine) = Outcome.machine (work machine) := by
  simp only [bind, EStateM.bind]
  cases work machine <;> rfl

end ScopeMachine.Machine
