/-
# Every exit restores the frames

A call adds a frame while its body runs, and errors can come at any instruction of any
body that is active. Whatever happens, the frames afterwards are for the same scopes as
before. So a machine that was at the top level is there again after each request, and
its variables are the globals.
-/

import ScopeMachine.Proofs.Isolation
import ScopeMachine.Proofs.Serving

namespace ScopeMachine.Machine

/-- The value of a global, which has to have one. It is announced like any other. -/
def fetchGlobal (env : Environment) (symbol : Symbol) (ref : SymbolRef) : Exec Value := do
  let machine ← get
  match machine.globals.get? ref with
  | none => throw (.unboundVariable symbol.name)
  | some value =>
    announce env .fetch fun types => symbol.fetchPiece value types env.scopes
    return value

/-- Announce a value for a global, and give it the value. -/
def storeGlobal (env : Environment) (symbol : Symbol) (ref : SymbolRef) (value : Value) :
    Exec Unit := do
  announce env .store fun types => symbol.storePiece value types env.scopes
  define ref value

variable {env : Environment} {machine : Machine}

/-! ## What requests keep of the frames -/

/-- A machine is seen with the frames that it has. -/
theorem machines_self (env : Environment) (machine : Machine) :
    ((frameInvariant env).simulation env.places).machines machine.frameScopes machine machine :=
  ⟨rfl, rfl⟩

theorem frameScopes_task (env : Environment) (machine : Machine) (task : Task) :
    (Outcome.machine (task.perform env machine)).frameScopes = machine.frameScopes :=
  (frameInvariant env).perform rfl task

theorem frameScopes_run (env : Environment) (machine : Machine) (body : Body) :
    (Outcome.machine (run env body machine)).frameScopes = machine.frameScopes :=
  let sim := (frameInvariant env).simulation env.places
  (sim.run (machines_self env machine) body fun value _ =>
    (frameInvariant env).shows_self value).machine.1

theorem frameScopes_call (env : Environment) (machine : Machine) (ref : SymbolRef)
    (receiver : Option TypeId) :
    (Outcome.machine (call env ref receiver machine)).frameScopes = machine.frameScopes :=
  frameScopes_callSymbol env _ machine ref receiver

theorem frameScopes_execute (env : Environment) (machine : Machine) (program : SymbolRef) :
    (Outcome.machine (execute env program machine)).frameScopes = machine.frameScopes := by
  rw [execute, machine_andReturn, frameScopes_call]

theorem frameScopes_fetch (env : Environment) (machine : Machine) (ref : SymbolRef) :
    (Outcome.machine (fetch env ref machine)).frameScopes = machine.frameScopes :=
  let sim := (frameInvariant env).simulation env.places
  (sim.fetch (machines_self env machine) rfl).machine.1

theorem frameScopes_store (env : Environment) (machine : Machine) (ref : SymbolRef)
    (value : Value) :
    (Outcome.machine (store env ref value machine)).frameScopes = machine.frameScopes := by
  let sim := (frameInvariant env).simulation env.places
  have hvalues : Value.Corresponds sim.addresses value value := by
    show Value.Corresponds (fun a b => True ∧ a = b) value value
    exact Value.corresponds_allowed ▸ ⟨fun _ _ => trivial, rfl⟩
  exact (sim.store (machines_self env machine) rfl hvalues).machine.1

theorem frameScopes_after (env : Environment) (machine : Machine) (request : Request) :
    (request.after env machine).frameScopes = machine.frameScopes := by
  cases request with
  | push value => rfl
  | pop =>
      rw [Request.after, Request.perform, machine_andReturn, pop]
      split <;> rfl
  | top =>
      rw [Request.after, Request.perform, machine_andReturn, top]
      split <;> rfl
  | define ref value => rfl
  | fetch ref =>
      rw [Request.after, Request.perform, machine_andReturn, frameScopes_fetch]
  | store ref value => exact frameScopes_store env machine ref value
  | task work =>
      rw [Request.after, Request.perform, machine_andReturn, frameScopes_task]
  | execute program => exact frameScopes_execute env machine program
  | newStream => rfl

theorem frameScopes_serve (env : Environment) (machine : Machine) (requests : List Request) :
    (serve env machine requests).frameScopes = machine.frameScopes := by
  have hafter (here : Machine) (request : Request)
      (hhere : here.frameScopes = machine.frameScopes) :
      (request.after env here).frameScopes = machine.frameScopes :=
    (frameScopes_after env here request).trans hhere
  exact serve_of_after hafter rfl requests

/-! ## Variables at the top level -/

/-- An announcement adds no frame. -/
theorem frames_of_announce_eq_ok {hook : Hook} {piece : TypeStore → Except TypeRefusal Piece}
    {here : Machine} (hannounced : announce env hook piece machine = .ok () here) :
    here.frames = machine.frames := by
  unfold announce at hannounced
  split at hannounced
  · split at hannounced <;> cases hannounced
    rfl
  · cases hannounced
    rfl

/-- Code that asks for the machine goes on with it. -/
theorem get_bind {α : Type} (next : Machine → Exec α) (machine : Machine) :
    (get >>= next) machine = next machine machine := rfl

theorem modify_apply (change : Machine → Machine) (machine : Machine) :
    (modify change : Exec Unit) machine = .ok () (change machine) := rfl

section TopLevel

variable {ref : SymbolRef} {symbol : Symbol} (hframes : machine.frames = #[])
  (hsymbol : env.scopes.symbol ref = .ok symbol) (hvar : symbol.defn ≠ .varParameter)

theorem frames_eq_empty_iff : machine.frames = #[] ↔ machine.frameScopes = [] := by
  simp [frameScopes]

include hframes

/-- Without frames every variable lives among the globals. -/
theorem ownAddress_of_frames_eq_empty (ref : SymbolRef) :
    machine.ownAddress ref = ⟨ref, .globals⟩ := by
  simp [ownAddress, placeOf, hframes, innermost]

include hvar

theorem addressOf_of_frames_eq_empty (ref : SymbolRef) :
    machine.addressOf symbol.defn ref = ⟨ref, .globals⟩ := by
  have hreferent : machine.referent? symbol.defn ref = none := by
    unfold referent?
    split
    · exact absurd ‹_› hvar
    · rfl
  rw [addressOf, hreferent, Option.getD_none, ownAddress_of_frames_eq_empty hframes]

include hsymbol

/-- Without frames a variable is fetched from the globals. -/
theorem fetch_eq_fetchGlobal (hconstant : symbol.defn ≠ .constant) :
    fetch env ref machine = fetchGlobal env symbol ref machine := by
  have hslot : machine.slot? (machine.addressOf symbol.defn ref) = machine.globals.get? ref := by
    rw [addressOf_of_frames_eq_empty hframes hvar]
    rfl
  rw [fetch, hsymbol, ofScopes_ok_bind, valueOf_eq_fetchVariable hconstant, fetchGlobal, get_bind]
  simp only [bind, EStateM.bind, fetchVariable, hslot]
  cases machine.globals.get? ref <;> rfl

/-- Without frames a variable is stored among the globals. -/
theorem store_eq_storeGlobal (value : Value) :
    store env ref value machine = storeGlobal env symbol ref value machine := by
  unfold store storeGlobal
  rw [hsymbol, ofScopes_ok_bind]
  simp only [bind, EStateM.bind]
  cases hannounced : announce env .store (fun types => symbol.storePiece value types env.scopes)
    machine with
  | error e here => rfl
  | ok _ here =>
      have hhere : here.frames = #[] := (frames_of_announce_eq_ok hannounced).trans hframes
      dsimp only
      rw [modify_apply, addressOf_of_frames_eq_empty hhere hvar]
      rfl

end TopLevel

/-- Whatever is run or called, and however it ends, the frames afterwards are for the
scopes that they were for before, in the same order. At the top level no frame is thus
left after any number of requests, failed or not, and what is fetched and stored from
then on is among the globals. -/
theorem every_exit_restores_frames (env : Environment) (machine : Machine) :
    (∀ body, (Outcome.machine (run env body machine)).frameScopes = machine.frameScopes) ∧
      (∀ ref receiver,
        (Outcome.machine (call env ref receiver machine)).frameScopes = machine.frameScopes) ∧
      (∀ program,
        (Outcome.machine (execute env program machine)).frameScopes = machine.frameScopes) ∧
      ∀ requests : List Request, machine.frames = #[] →
        let later := serve env machine requests
        later.frames = #[] ∧
          ∀ ref symbol, env.scopes.symbol ref = .ok symbol → symbol.defn ≠ .constant →
            symbol.defn ≠ .varParameter →
              fetch env ref later = fetchGlobal env symbol ref later ∧
                ∀ value, store env ref value later = storeGlobal env symbol ref value later := by
  refine ⟨frameScopes_run env machine, frameScopes_call env machine,
    frameScopes_execute env machine, ?_⟩
  intro requests hframes later
  have hlater : later.frames = #[] := by
    rw [frames_eq_empty_iff, frameScopes_serve, ← frames_eq_empty_iff]
    exact hframes
  refine ⟨hlater, ?_⟩
  intro ref symbol hsymbol hconstant hvar
  exact ⟨fetch_eq_fetchGlobal hlater hsymbol hvar hconstant,
    store_eq_storeGlobal hlater hsymbol hvar⟩

/-- After a recursion without end was cut off, its parameter is one of the globals again. -/
theorem every_exit_restores_frames_recursion :
    let env : Environment := { selfCalling with settings := { callDepth := 3 } }
    let machine : Machine := { stack := [.int 1] }
    let recursion : Request := .task (.routine ⟨⟨0⟩, ⟨0⟩⟩ none)
    let later := serve env machine [recursion]
    let parameter : Symbol :=
      { name := "n", home := ⟨1⟩, type := some .int, defn := .valueParameter }
    (∃ here, recursion.perform env machine = .error (.callDepthExceeded 3) here) ∧
      machine.frames = #[] ∧ later.frames = #[] ∧
        fetch env ⟨⟨1⟩, ⟨0⟩⟩ later = fetchGlobal env parameter ⟨⟨1⟩, ⟨0⟩⟩ later ∧
          ∀ value, store env ⟨⟨1⟩, ⟨0⟩⟩ value later =
            storeGlobal env parameter ⟨⟨1⟩, ⟨0⟩⟩ value later := by
  intro env machine recursion later parameter
  have hfails : recursion.perform env machine =
      .error (.callDepthExceeded 3) (Outcome.machine (recursion.perform env machine)) := by
    decide +kernel
  have hsymbol : env.scopes.symbol ⟨⟨1⟩, ⟨0⟩⟩ = .ok parameter := by decide +kernel
  obtain ⟨hlater, hvariables⟩ :=
    (every_exit_restores_frames env machine).2.2.2 [recursion] rfl
  exact ⟨⟨_, hfails⟩, rfl, hlater,
    hvariables _ parameter hsymbol (by decide) (by decide)⟩

end ScopeMachine.Machine
