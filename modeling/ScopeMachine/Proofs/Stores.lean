/-
# What a store leaves behind

A value that is stored is there for the next fetch, as long as there is a place for it.
The address of a variable stays a value when the activation that it names has ended: it
may lie on the stack or in a variable. A var parameter that is bound to it has no place
then. A store to it goes through and changes nothing, where a fetch finds it unbound.
-/

import ScopeMachine.Proofs.Forwarding
import ScopeMachine.Proofs.Serving

namespace ScopeMachine.Machine

/-- No address is made up in the request, so that addresses come from running code only. -/
def Request.BringsNoAddress : Request → Prop
  | .push value | .define _ value | .store _ value => value.kind ≠ .address
  | _ => True

variable {machine : Machine} {symbol : Symbol} {ref : SymbolRef} {value : Value}

/-- A symbol without a place is a var parameter that is bound to an address. -/
theorem bound_of_not_lives {defn : Definition}
    (hgone : ¬ machine.Lives (machine.addressOf defn ref)) :
    defn = .varParameter ∧ machine.slot? (machine.ownAddress ref) =
      some (.address (machine.addressOf defn ref)) := by
  have hbound : machine.referent? defn ref ≠ none := by
    intro hnone
    rw [addressOf, hnone, Option.getD_none] at hgone
    exact hgone (lives_ownAddress machine ref)
  obtain ⟨target, htarget⟩ := Option.ne_none_iff_exists'.mp hbound
  rw [addressOf, htarget, Option.getD_some]
  unfold referent? at htarget
  split at htarget
  case h_2 => cases htarget
  case h_1 =>
    split at htarget
    case h_2 => cases htarget
    case h_1 hheld =>
      cases htarget
      exact ⟨rfl, hheld⟩

/-- What a symbol stands for is not changed by a value that is stored to it, unless the value
is an address. -/
theorem addressOf_setSlot (machine : Machine) (ref : SymbolRef) (defn : Definition)
    (hvalue : value.kind ≠ .address) :
    (machine.setSlot (machine.addressOf defn ref) value).addressOf defn ref =
      machine.addressOf defn ref := by
  generalize haddress : machine.addressOf defn ref = address
  have hown : (machine.setSlot address value).ownAddress ref = machine.ownAddress ref :=
    ownAddress_of_frameScopes (frameScopes_setSlot address value) ref
  by_cases hself : machine.ownAddress ref = address
  · -- The slot that is overwritten is the one that could bind the symbol.
    have hlives : machine.Lives address := hself ▸ lives_ownAddress machine ref
    have hheld := slot?_setSlot_self hlives value
    have hfree : (machine.setSlot address value).referent? defn ref = none := by
      cases defn with
      | varParameter =>
          simp only [referent?, hown, hself, hheld]
          cases value with
          | address target => exact absurd rfl hvalue
          | _ => rfl
      | _ => rfl
    rw [addressOf, hfree, Option.getD_none, hown, hself]
  · have hheld : (machine.setSlot address value).slot? (machine.ownAddress ref) =
        machine.slot? (machine.ownAddress ref) := slot?_setSlot_of_ne hself value
    have hsame : (machine.setSlot address value).referent? defn ref =
        machine.referent? defn ref := by
      cases defn with
      | varParameter => simp only [referent?, hown, hheld]
      | _ => rfl
    rw [addressOf, hsame, hown]
    exact haddress

/-- A store goes through. If the symbol stands for a variable that still has its place, a
fetch right afterwards answers what was stored. Otherwise the symbol is a var parameter that
is bound to a variable of an activation that has ended; then the store changes nothing, and
the fetch finds the parameter unbound. -/
theorem fetch_after_store (env : Environment) (machine : Machine) (ref : SymbolRef)
    (value : Value) (hsymbol : env.scopes.symbol ref = .ok symbol)
    (hconstant : symbol.defn ≠ .constant)
    (hvalue : value.kind ≠ .address) (hfetch : env.Announces .fetch machine.types)
    (hstore : env.Announces .store machine.types) :
    ∃ after, store env ref value machine = .ok () after ∧
      (machine.Lives (machine.addressOf symbol.defn ref) →
        ∃ sink, fetch env ref after = .ok value (after.withSink sink)) ∧
      (¬ machine.Lives (machine.addressOf symbol.defn ref) →
        (symbol.defn = .varParameter ∧ machine.slot? (machine.ownAddress ref) =
          some (.address (machine.addressOf symbol.defn ref))) ∧
        (∃ sink, after = machine.withSink sink) ∧
        fetch env ref after = .error (.unboundVariable symbol.name) after) := by
  obtain ⟨sink, hdone⟩ := store_eq hsymbol rfl value hstore
  refine ⟨_, hdone, ?_, ?_⟩
  · intro hlives
    have htypes : (machine.setSlot (machine.addressOf symbol.defn ref) value).types =
        machine.types := by
      unfold setSlot
      split <;> rfl
    have haddress := addressOf_setSlot machine ref symbol.defn hvalue
    have hheld := slot?_setSlot_self hlives value
    generalize machine.setSlot (machine.addressOf symbol.defn ref) value = later at *
    have hsame : (later.withSink sink).addressOf symbol.defn ref =
        machine.addressOf symbol.defn ref := haddress
    exact fetch_of_slot hsymbol hsame hconstant hheld (htypes.symm ▸ hfetch)
  · intro hgone
    obtain ⟨hempty, hkept⟩ := slot?_of_not_lives hgone
    rw [hkept value]
    exact ⟨bound_of_not_lives hgone, ⟨sink, rfl⟩, fetch_of_empty hsymbol rfl hconstant hempty⟩

/-- A session with a function `give` that answers the address of its own variable `x`, and a
global var parameter `p`. -/
def lending : Environment where
  scopes := ⟨#[
    { index := ⟨0⟩
      symbols := #[
        { name := "give", home := ⟨0⟩, type := some .int
          defn := .routine .function
            { code := .interpreted [.fetchAddress ⟨⟨1⟩, ⟨0⟩⟩, .leave]
              scope := some ⟨1⟩ } },
        { name := "p", home := ⟨0⟩, type := some .int, defn := .varParameter }]
      names := .node .leaf "give" ⟨0⟩ (.node .leaf "p" ⟨1⟩ .leaf)
      order := some #[⟨0⟩, ⟨1⟩]
      ranks := #[some ⟨0⟩, some ⟨1⟩] },
    { index := ⟨1⟩
      symbols := #[{ name := "x", home := ⟨1⟩, type := some .int, defn := .variable }]
      names := .node .leaf "x" ⟨0⟩ .leaf
      order := some #[⟨0⟩]
      ranks := #[some ⟨0⟩] }]⟩
  settings := {}

/-- Bind `p` to the address that `give` answers. -/
def borrowing : Request :=
  .task (.body [.call ⟨⟨0⟩, ⟨0⟩⟩, .store ⟨⟨0⟩, ⟨1⟩⟩])

theorem fetch_after_store_borrowing :
    let left := serve lending {} [borrowing]
    borrowing.BringsNoAddress ∧ store lending ⟨⟨0⟩, ⟨1⟩⟩ (.int 5) left = .ok () left ∧
      fetch lending ⟨⟨0⟩, ⟨1⟩⟩ left = .error (.unboundVariable "p") left := by
  intro left
  have hgone : ¬ left.Lives (left.addressOf .varParameter ⟨⟨0⟩, ⟨1⟩⟩) := by
    intro hlives
    have hless := hlives 0 rfl
    cases hless
  obtain ⟨after, hstore, -, hlost⟩ := fetch_after_store lending left ⟨⟨0⟩, ⟨1⟩⟩ (.int 5) rfl
    nofun nofun nofun nofun
  have hkept : after = left := by
    have hsame : store lending ⟨⟨0⟩, ⟨1⟩⟩ (.int 5) left = .ok () left := rfl
    cases hstore.symm.trans hsame
    rfl
  obtain ⟨-, -, hfetch⟩ := hlost hgone
  rw [hkept] at hstore hfetch
  exact ⟨trivial, hstore, hfetch⟩

end ScopeMachine.Machine
