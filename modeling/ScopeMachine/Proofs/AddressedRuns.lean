/-
# Runs find the symbols behind their addresses

Compiled code names its symbols by address only. In the symbol tables of a program,
whatever was requested of them, an address that is resolved leads to a symbol. So a
run can be refused an address, but it never comes to a scope or a symbol that is not
there.
-/

import ScopeMachine.Proofs.Errors.Runs
import ScopeMachine.Proofs.Scopes.Addressing

namespace ScopeMachine

open Machine

/-- The error is that of a reference which leads nowhere. -/
def EvalError.IsLost : EvalError → Prop
  | .scope (.unknownScope _) => True
  | .scope (.unknownSymbol _) => True
  | _ => False

/-- With maintained symbol tables, no code meets a reference that leads nowhere. -/
def addressedAllowance (env : Environment) (hscopes : env.scopes.Maintained) : Allowance env where
  types _ := True
  allows error := ¬ error.IsLost
  receivers _ := True
  own error hown := by
    cases error with
    | scope refusal => exact absurd trivial hown
    | _ => exact id
  unresolved addr refusal hrefused := by
    rcases hscopes.resolve_eq_error_iff.mp hrefused with ⟨rfl, -⟩ | ⟨rfl, -⟩ <;> exact id
  leads addr ref hresolve := by
    obtain ⟨symbol, hsymbol⟩ := hscopes.exists_symbol_of_resolve hresolve
    intro refusal hrefused
    rw [hsymbol] at hrefused
    cases hrefused
  grows _ _ _ := trivial
  character _ _ _ := id
  receiver _ _ := ⟨fun _ _ => id, fun _ _ => id⟩
  constant _ _ _ _ := id
  announced _ _ _ _ _ _ := id
  bodies _ _ _ _ _ := trivial

/-- Whatever was requested of the symbol tables of a program, references and addresses are
consistent, and no run of any code meets a scope or a symbol that is not there. -/
theorem addresses_stay_consistent (requests : List ScopeStore.Request) :
    let store := ScopeStore.serve {} requests
    store.Addressed ∧
      ∀ (settings : Settings) (places : Places) (body : Body) (machine : Machine),
        (∀ index here, run { scopes := store, settings, places } body machine ≠
          .error (.scope (.unknownScope index)) here) ∧
        ∀ ref here, run { scopes := store, settings, places } body machine ≠
          .error (.scope (.unknownSymbol ref)) here := by
  intro store
  have hstore : store.Maintained := ScopeStore.maintained_serve requests
  refine ⟨hstore.addressed, fun settings places body machine => ?_⟩
  let env : Environment := { scopes := store, settings, places }
  have hcovered : (addressedAllowance env hstore).Covered (run env body machine) :=
    Allowance.covers_run (fun _ _ _ _ => trivial) machine trivial
  constructor
  · intro index here hlost
    rw [hlost] at hcovered
    exact hcovered.1 trivial
  · intro ref here hlost
    rw [hlost] at hcovered
    exact hcovered.1 trivial

end ScopeMachine
