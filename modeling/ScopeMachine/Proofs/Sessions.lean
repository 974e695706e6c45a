/-
# Sessions that a program can come to have

A session begins with no scope and the predefined types. From then on settings and files
change from outside, the symbol tables are asked for this and that, types are made, the
members are installed, and machines run code and hand back the types that they have
added to. Whatever the order of these, scopes and types are as the operations of each
leave them, and the members that were installed stay.
-/

import ScopeMachine.Proofs.Errors.Runs
import ScopeMachine.Proofs.Members.Installing
import ScopeMachine.Session

namespace ScopeMachine

open Machine

/-- Types that were made from the predefined ones, at least so many. -/
structure TypeStore.Holds (types : TypeStore) (least : Nat) : Prop where
  reachable : types.Reachable
  least_le : least ≤ types.size

theorem TypeStore.Holds.characters {types : TypeStore} {least : Nat} (hholds : types.Holds least)
    (size count : Nat) : (types.allocate (.characters size count)).2.Holds least where
  reachable := by
    apply hholds.reachable.allocate
    have hsize := hholds.reachable.size_le
    show 3 < types.size
    omega
  least_le := by
    rw [size_allocate]
    exact Nat.le_succ_of_le hholds.least_le

theorem Machine.holds_serve (env : Environment) {machine : Machine} {least : Nat}
    (hholds : machine.types.Holds least) (requests : List Request) :
    (serve env machine requests).types.Holds least :=
  types_serve env (·.Holds least) (·.characters) hholds requests

namespace Session

/-- The sessions that a program can come to have. -/
inductive Reachable : Session → Prop
  | start : Reachable {}
  | outside {session : Session} (context : Context) (disk : Disk)
      (hreachable : Reachable session) : Reachable { session with context, disk }
  | scopes {session : Session} (request : ScopeStore.Request) (hreachable : Reachable session) :
      Reachable { session with
        declarations.scopes := request.after session.declarations.scopes }
  | types {session : Session} {types : TypeStore} (hreachable : Reachable session)
      (hmakes : session.declarations.types.Makes types) :
      Reachable { session with declarations.types := types }
  | installed {session : Session} (hreachable : Reachable session) :
      Reachable session.install.2
  | ran {session : Session} (destination : Destination) (requests : List Machine.Request)
      (hreachable : Reachable session) :
      Reachable (session.afterRun
        (serve session.environment (session.machine destination) requests))

/-- Symbol tables can be asked for several things in a row. -/
theorem Reachable.serve_scopes {session : Session} (hreachable : session.Reachable)
    (requests : List ScopeStore.Request) :
    Reachable { session with
      declarations.scopes := session.declarations.scopes.serve requests } := by
  induction requests generalizing session with
  | nil => exact hreachable
  | cons request rest ih => exact ih (hreachable.scopes request)

/-- What holds of a session at any time. -/
structure Maintained (session : Session) : Prop where
  declarations : session.declarations.Maintained
  listed : ∀ tables, session.members = some tables → tables.Lists session.declarations.scopes

variable {session later : Session}

@[simp]
theorem types_machine (session : Session) (destination : Destination) :
    (session.machine destination).types = session.declarations.types := rfl

/-- Later declarations with the same members. -/
theorem Maintained.follows (hsession : session.Maintained)
    (hfollows : session.declarations.Follows later.declarations)
    (hmembers : later.members = session.members) : later.Maintained where
  declarations := hfollows.maintained
  listed tables htables :=
    (hsession.listed tables (hmembers.symm.trans htables)).follows hfollows.scopes

theorem Maintained.install (hsession : session.Maintained) : session.install.2.Maintained := by
  have hyields := MemberTables.yields_install hsession.declarations session.context
  rw [InstallM.Yields] at hyields
  rw [Session.install]
  cases hdone : MemberTables.install session.context session.declarations with
  | error refusal declarations =>
      rw [hdone] at hyields
      exact hsession.follows hyields rfl
  | ok tables declarations =>
      rw [hdone] at hyields
      refine ⟨hyields.1.maintained, ?_⟩
      rintro _ ⟨⟩
      exact hyields.2

theorem Reachable.maintained (hreachable : session.Reachable) : session.Maintained := by
  induction hreachable with
  | start => exact ⟨⟨.empty, .predefined⟩, by simp⟩
  | outside context disk hreachable ih => exact ⟨ih.declarations, ih.listed⟩
  | scopes request hreachable ih =>
      exact ih.follows ⟨ih.declarations.scopes.follows_after request, ih.declarations.types⟩ rfl
  | types hreachable hmakes ih =>
      exact ih.follows ⟨.refl ih.declarations.scopes, hmakes.reachable ih.declarations.types⟩ rfl
  | installed hreachable ih => exact ih.install
  | @ran session destination requests hreachable ih =>
      have hstart : (session.machine destination).types.Holds 0 :=
        ⟨ih.declarations.types, Nat.zero_le _⟩
      have hholds := holds_serve session.environment hstart requests
      exact ih.follows ⟨.refl ih.declarations.scopes, hholds.reachable⟩ rfl

end Session

end ScopeMachine
