/-
# Invariants of runs

A machine that simulates itself keeps an invariant. Stated that way, an invariant
needs only the elementary changes of a machine to be looked at, and it may restrict
which addresses the values of a machine hold. As for simulations, what holds may
depend on a view, which changes inside a new frame.

A machine simulates itself also where arrays stand in other places, as long as the
run converts none to a text. Nothing else that code does shows where an array is.
-/

import ScopeMachine.Proofs.Simulation.Run

namespace ScopeMachine

open Machine Outcome

/-- If the value is an address, it is among the allowed ones. -/
def Value.Allowed (allowed : VariableAddress → Prop) (value : Value) : Prop :=
  ∀ target, value = .address target → allowed target

/-- What every elementary change of a machine keeps. -/
structure Invariant (View : Type) (env : Environment) where
  holds : View → Machine → Prop
  allowed : VariableAddress → Prop
  inner : View → Option ScopeIndex → View
  -- What may be read: the stack, and variables by address.
  stack : ∀ {view machine}, holds view machine →
    ∀ value ∈ machine.stack, value.Allowed allowed
  own : ∀ {view machine}, holds view machine → ∀ ref, allowed (machine.ownAddress ref)
  slot : ∀ {view machine address value}, holds view machine → allowed address →
    machine.slot? address = some value → value.Allowed allowed
  -- What may be changed.
  withStack : ∀ {view machine}, holds view machine → ∀ stack : List Value,
    (∀ value ∈ stack, value.Allowed allowed) → holds view { machine with stack }
  setSlot : ∀ {view machine address value}, holds view machine → allowed address →
    value.Allowed allowed → holds view (machine.setSlot address value)
  withLine : ∀ {view machine}, holds view machine → ∀ line, holds view { machine with line }
  withType : ∀ {view machine}, holds view machine → ∀ size count, holds view
    { machine with types := (machine.types.allocate (.characters size count)).2 }
  withChannels : ∀ {view machine}, holds view machine → ∀ channels : Channels, holds view
    { machine with channels := channels.withSink machine.channels.sink }
  emit : ∀ {view machine}, holds view machine → ∀ piece, holds view (machine.emit piece)
  -- Frames are entered with parameters bound, and left again.
  enter : ∀ {view machine}, holds view machine → ∀ scope parameters arguments,
    (∀ value ∈ arguments, value.Allowed allowed) → holds (inner view scope)
      (machine.entering { scope, locals := Slots.bind parameters arguments })
  leave : ∀ {view machine inside scope}, holds view machine →
    holds (inner view scope) inside → holds view inside.leaving

section Diagonal

variable {allowed : VariableAddress → Prop}

theorem Value.corresponds_allowed :
    Value.Corresponds (fun first second => allowed first ∧ first = second) =
      fun first second => first.Allowed allowed ∧ first = second := by
  funext first second
  apply propext
  constructor
  · intro hvalues
    cases hvalues with
    | plain hplain => exact ⟨fun target htarget => absurd htarget (hplain target), rfl⟩
    | address htargets =>
        obtain ⟨hallowed, rfl⟩ := htargets
        refine ⟨?_, rfl⟩
        rintro _ ⟨⟩
        exact hallowed
  · rintro ⟨hallowed, rfl⟩
    cases first with
    | address target => exact .address ⟨hallowed target rfl, rfl⟩
    | _ => exact .plain (by simp)

theorem Value.forall₂_corresponds_allowed {first second : List Value} :
    List.Forall₂ (Value.Corresponds fun a b => allowed a ∧ a = b) first second ↔
      (∀ value ∈ first, value.Allowed allowed) ∧ first = second := by
  rw [corresponds_allowed, List.forall₂_and_left, List.forall₂_eq_eq_eq]

end Diagonal

namespace Invariant

variable {View : Type} {env : Environment} (inv : Invariant View env)

theorem announce_agree {view : View} {machine : Machine} (hholds : inv.holds view machine)
    (places : Places) (hook : Hook) (piece : TypeStore → Except TypeRefusal Piece) :
    Agree (fun first second => inv.holds view first ∧ first = second) Eq
      (Machine.announce env hook piece machine)
      (Machine.announce (env.placing places) hook piece machine) := by
  show Agree _ Eq _ (Machine.announce env hook piece machine)
  unfold Machine.announce
  by_cases hhas : env.settings.trace.has hook
  · rw [if_pos hhas]
    cases piece machine.types with
    | ok made => exact ⟨rfl, inv.emit hholds made, rfl⟩
    | error e => exact ⟨rfl, hholds, rfl⟩
  · rw [if_neg hhas]
    exact ⟨rfl, hholds, rfl⟩

/-- The simulation of machines by themselves, with arrays in the same places or in others. -/
def simulation (places : Places) : Simulation View env (env.placing places) where
  machines view first second := inv.holds view first ∧ first = second
  refs := Eq
  addresses first second := inv.allowed first ∧ first = second
  constants := id
  inner := inv.inner
  shows value := env.places = places ∨ ∀ bytes, value ≠ .buffer bytes
  callDepth := rfl
  resolve addr := .refl (fun _ => rfl) _
  symbol := by
    intro r s hrefs
    subst hrefs
    exact .refl Symbol.Corresponds.refl _
  depth := by
    intro view machine other hmachines
    rw [hmachines.2]
  stack := by
    intro view machine other hmachines
    obtain ⟨hholds, rfl⟩ := hmachines
    exact Value.forall₂_corresponds_allowed.mpr ⟨inv.stack hholds, rfl⟩
  withStack := by
    intro view machine other stack stack' hmachines hstacks
    obtain ⟨hholds, rfl⟩ := hmachines
    obtain ⟨hallowed, rfl⟩ := Value.forall₂_corresponds_allowed.mp hstacks
    exact ⟨inv.withStack hholds stack hallowed, rfl⟩
  withLine := by
    intro view machine other line hmachines
    obtain ⟨hholds, rfl⟩ := hmachines
    exact ⟨inv.withLine hholds line, rfl⟩
  announce := by
    intro view machine other hook piece hmachines _
    obtain ⟨hholds, rfl⟩ := hmachines
    exact inv.announce_agree hholds places hook _
  fetched := by
    intro view machine other r s x y v w hmachines hx hy hrefs hvalues
    rw [Value.corresponds_allowed] at hvalues
    obtain ⟨hholds, rfl⟩ := hmachines
    obtain ⟨-, rfl⟩ := hvalues
    subst hrefs
    obtain rfl : x = y := Except.ok.inj (hx.symm.trans hy)
    exact inv.announce_agree hholds places .fetch _
  stored := by
    intro view machine other r s x y v w hmachines hx hy hrefs hvalues
    rw [Value.corresponds_allowed] at hvalues
    obtain ⟨hholds, rfl⟩ := hmachines
    obtain ⟨-, rfl⟩ := hvalues
    subst hrefs
    obtain rfl : x = y := Except.ok.inj (hx.symm.trans hy)
    exact inv.announce_agree hholds places .store _
  own := by
    intro view machine other r s hmachines hrefs
    obtain ⟨hholds, rfl⟩ := hmachines
    subst hrefs
    exact ⟨inv.own hholds r, rfl⟩
  slot := by
    intro view machine other address address' hmachines haddresses
    obtain ⟨hholds, rfl⟩ := hmachines
    obtain ⟨hallowed, rfl⟩ := haddresses
    rw [Value.CorrespondsIfAny, Value.corresponds_allowed]
    cases hheld : machine.slot? address with
    | none => exact .none
    | some value => exact .some ⟨inv.slot hholds hallowed hheld, rfl⟩
  setSlot := by
    intro view machine other address address' v w hmachines haddresses hvalues
    rw [Value.corresponds_allowed] at hvalues
    obtain ⟨hholds, rfl⟩ := hmachines
    obtain ⟨hallowed, rfl⟩ := haddresses
    obtain ⟨hvalue, rfl⟩ := hvalues
    exact ⟨inv.setSlot hholds hallowed hvalue, rfl⟩
  enter := by
    intro view machine other scope rs ss vs ws hmachines hrefs hvalues
    rw [List.forall₂_eq_eq_eq] at hrefs
    subst hrefs
    obtain ⟨hholds, rfl⟩ := hmachines
    obtain ⟨hallowed, rfl⟩ := Value.forall₂_corresponds_allowed.mp hvalues
    exact ⟨inv.enter hholds scope rs vs hallowed, rfl⟩
  leave := by
    intro view machine other inside inside' scope hmachines hinside
    obtain ⟨hholds, rfl⟩ := hmachines
    obtain ⟨hinner, rfl⟩ := hinside
    exact ⟨inv.leave hholds hinner, rfl⟩
  types := by
    intro view machine other hmachines
    rw [hmachines.2, TypeStore.rename_id]
  withType := by
    intro view machine other size count hmachines
    obtain ⟨hholds, rfl⟩ := hmachines
    exact ⟨inv.withType hholds size count, rfl⟩
  channels := by
    intro view machine other hmachines
    rw [hmachines.2, Channels.withSink_self]
  withChannels := by
    intro view machine other channels hmachines
    obtain ⟨hholds, rfl⟩ := hmachines
    exact ⟨inv.withChannels hholds channels, rfl⟩
  written := by
    intro view machine other text hmachines
    obtain ⟨hholds, rfl⟩ := hmachines
    exact ⟨inv.emit hholds _, rfl⟩
  text := by
    intro v w hvalues hshows code id
    rw [Value.corresponds_allowed] at hvalues
    obtain ⟨-, rfl⟩ := hvalues
    rcases hshows with rfl | hother
    · rfl
    · exact Value.scalarText_eq_of_ne_buffer hother code _ _

/-- Where arrays stand in the same places, every value may be converted. -/
theorem shows_self (value : Value) : (inv.simulation env.places).shows value :=
  .inl rfl

/-- A task keeps an invariant, whether it goes through or fails. -/
theorem perform {view : View} {machine : Machine} (hholds : inv.holds view machine)
    (task : Task) : inv.holds view (Outcome.machine (task.perform env machine)) := by
  have hmachines : (inv.simulation env.places).machines view machine machine := ⟨hholds, rfl⟩
  have hagree : Agree ((inv.simulation env.places).machines view) Eq (task.perform env machine)
      (task.perform env machine) := by
    cases task with
    | body code =>
        exact (inv.simulation env.places).body hmachines code fun value _ => inv.shows_self value
    | routine ref receiver =>
        exact (inv.simulation env.places).routine hmachines rfl receiver fun value _ =>
          inv.shows_self value
  exact hagree.machine.1

/-- What is kept by the body of a routine, wherever it starts. -/
theorem called (room : Nat) (ref : SymbolRef) (machine : Machine) :
    (inv.simulation env.places).CalledAgree room ref machine :=
  fun _ body _ _ _ hmachines =>
    (inv.simulation env.places).runWithin room body hmachines fun value _ => inv.shows_self value

/-- A call keeps an invariant, with any number of frames left. -/
theorem callSymbol {view : View} {machine : Machine} (hholds : inv.holds view machine)
    (room : Nat) (ref : SymbolRef) (receiver : Option TypeId) :
    inv.holds view
      (Outcome.machine (Machine.callSymbol env (nestedIn env room) ref receiver machine)) := by
  have hmachines : (inv.simulation env.places).machines view machine machine := ⟨hholds, rfl⟩
  have hrefs : (inv.simulation env.places).refs ref ref := rfl
  have hagree := (inv.simulation env.places).callSymbol hmachines room hrefs receiver
    (fun _ value _ _ => inv.shows_self value) fun fewer _ => inv.called fewer ref machine
  exact hagree.machine.1

/-- An instruction keeps an invariant, with any number of frames left. -/
theorem instruction {view : View} {machine : Machine} (hholds : inv.holds view machine)
    (room : Nat) (op : Op) :
    inv.holds view (Outcome.machine (Machine.perform env (nestedIn env room) op machine)) := by
  have hmachines : (inv.simulation env.places).machines view machine machine := ⟨hholds, rfl⟩
  have hagree := (inv.simulation env.places).perform hmachines room op
    (fun _ _ _ value _ _ _ => inv.shows_self value)
    fun fewer _ ref _ _ _ => inv.called fewer ref machine
  exact hagree.machine.1

end Invariant

end ScopeMachine
