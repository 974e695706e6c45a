/-
# Isolation of activations

All activations of a recursive routine compete for the same symbols, since a
variable lives in the innermost frame for its scope. While a newer frame for the
same scope is active, an older one is in its shadow: no symbol leads to it any
more, and only an address that was taken before could. Where no such address is
held, none can come about, so the older frame stays exactly as it is, whatever runs
in the shadow and however it ends.
-/

import ScopeMachine.Proofs.Frames

namespace ScopeMachine

open Machine Outcome

/-- The address does not lie in the frame of some depth. -/
def VariableAddress.Outside (depth : Nat) (address : VariableAddress) : Prop :=
  address.place ≠ .frame depth

/-- Every value of a variable is allowed. -/
def Slots.AllAllowed (slots : Slots) (allowed : VariableAddress → Prop) : Prop :=
  ∀ ref value, slots.get? ref = some value → value.Allowed allowed

/-- Neither the stack nor a variable holds an address into the frame of some depth. -/
structure Machine.HoldsNone (depth : Nat) (machine : Machine) : Prop where
  stack : ∀ value ∈ machine.stack, value.Allowed (·.Outside depth)
  globals : machine.globals.AllAllowed (·.Outside depth)
  locals : ∀ (other : Nat) (frame : Frame), machine.frames[other]? = some frame →
    frame.locals.AllAllowed (·.Outside depth)

namespace Slots

variable {allowed : VariableAddress → Prop} {slots : Slots}

theorem AllAllowed.empty : AllAllowed {} allowed := by
  intro ref value hheld
  cases hheld

theorem AllAllowed.set (hslots : slots.AllAllowed allowed) (ref : SymbolRef) {value : Value}
    (hvalue : value.Allowed allowed) : (slots.set ref value).AllAllowed allowed := by
  intro other held hheld
  by_cases hother : other = ref
  · subst hother
    rw [get?_set_self] at hheld
    cases hheld
    exact hvalue
  · rw [get?_set_of_ne _ _ hother] at hheld
    exact hslots other held hheld

/-- Parameters that are bound hold nothing but arguments. -/
theorem AllAllowed.bind (parameters : List SymbolRef) {arguments : List Value}
    (harguments : ∀ value ∈ arguments, value.Allowed allowed) :
    (Slots.bind parameters arguments).AllAllowed allowed := by
  have hbound : ∀ bound ∈ parameters.zip arguments, bound.2.Allowed allowed :=
    fun bound hbound => harguments bound.2 (List.of_mem_zip hbound).2
  unfold Slots.bind
  generalize parameters.zip arguments = all at hbound
  induction all with
  | nil => exact .empty
  | cons bound others ih =>
      have hothers := ih fun other hother => hbound other (List.mem_cons_of_mem _ hother)
      exact hothers.set bound.1 (hbound bound List.mem_cons_self)

end Slots

namespace Machine

/-- The frame of some depth is as it was, and in the shadow of a later frame for the
same scope, and no address into it is held. -/
structure Shadowed (depth : Nat) (frame : Frame) (scopes : List (Option ScopeIndex))
    (machine : Machine) : Prop where
  same : machine.frameScopes = scopes
  kept : machine.frames[depth]? = some frame
  shadow : ∃ later scope, depth < later ∧ frame.scope = some scope ∧
    scopes[later]? = some (some scope)
  held : machine.HoldsNone depth

namespace Shadowed

variable {depth : Nat} {frame : Frame} {scopes : List (Option ScopeIndex)} {machine : Machine}

theorem lt_length (hshadowed : Shadowed depth frame scopes machine) :
    depth + 1 < scopes.length := by
  obtain ⟨later, scope, hlater, -, hscope⟩ := hshadowed.shadow
  have hless := (List.getElem?_eq_some_iff.mp hscope).1
  omega

theorem length_eq (hshadowed : Shadowed depth frame scopes machine) :
    machine.frames.size = scopes.length := by
  rw [← hshadowed.same, length_frameScopes]

/-- No symbol leads to the frame. -/
theorem own (hshadowed : Shadowed depth frame scopes machine) (ref : SymbolRef) :
    (machine.ownAddress ref).Outside depth := by
  intro hplace
  obtain ⟨hfor, hnone⟩ := innermost_eq_some (innermost_of_place hplace)
  obtain ⟨later, scope, hlater, hscope, hshadow⟩ := hshadowed.shadow
  have hless := (List.getElem?_eq_some_iff.mp hshadow).1
  rw [← hshadowed.length_eq] at hless
  apply hnone later hlater hless
  rw [hshadowed.kept, Option.any_some, hscope] at hfor
  rw [← hshadowed.same, getElem?_frameScopes] at hshadow
  obtain ⟨shadowing, hfound, hsame⟩ := Option.map_eq_some_iff.mp hshadow
  rw [hfound, Option.any_some, hsame]
  exact hfor

/-- What a variable elsewhere holds is no address into the frame. -/
theorem slot (hshadowed : Shadowed depth frame scopes machine) {address : VariableAddress}
    {value : Value} (hheld : machine.slot? address = some value) :
    value.Allowed (·.Outside depth) := by
  obtain ⟨ref, place⟩ := address
  cases place with
  | globals => exact hshadowed.held.globals ref value hheld
  | frame other =>
      rw [slot?_frame, Option.bind_eq_some_iff] at hheld
      obtain ⟨found, hother, hheld⟩ := hheld
      exact hshadowed.held.locals other found hother ref value hheld

theorem setSlot (hshadowed : Shadowed depth frame scopes machine) {address : VariableAddress}
    {value : Value} (haddress : address.Outside depth)
    (hvalue : value.Allowed (·.Outside depth)) :
    Shadowed depth frame scopes (machine.setSlot address value) := by
  obtain ⟨ref, place⟩ := address
  cases place with
  | globals =>
      exact { hshadowed with
        held := { hshadowed.held with globals := hshadowed.held.globals.set ref hvalue } }
  | frame other =>
      have hother : other ≠ depth := fun hsame => haddress (congrArg Place.frame hsame)
      refine ⟨?_, ?_, hshadowed.shadow, ⟨hshadowed.held.stack, hshadowed.held.globals, ?_⟩⟩
      · rw [frameScopes_setSlot, hshadowed.same]
      · simpa [Machine.setSlot, Array.getElem?_modify, hother] using hshadowed.kept
      · intro index found hfound
        simp only [Machine.setSlot, Array.getElem?_modify] at hfound
        split at hfound
        · obtain ⟨old, hold, rfl⟩ := Option.map_eq_some_iff.mp hfound
          exact (hshadowed.held.locals index old hold).set ref hvalue
        · exact hshadowed.held.locals index found hfound

theorem entering (hshadowed : Shadowed depth frame scopes machine) (new : Frame)
    (hnew : new.locals.AllAllowed (·.Outside depth)) :
    Shadowed depth frame (scopes ++ [new.scope]) (machine.entering new) := by
  have hless := hshadowed.lt_length
  have hlength := hshadowed.length_eq
  refine ⟨?_, ?_, ?_, ⟨hshadowed.held.stack, hshadowed.held.globals, ?_⟩⟩
  · rw [frameScopes_entering, hshadowed.same]
  · have hdepth : depth ≠ machine.frames.size := by omega
    simpa [Machine.entering, Array.getElem?_push, hdepth] using hshadowed.kept
  · obtain ⟨later, scope, hlater, hscope, hshadow⟩ := hshadowed.shadow
    refine ⟨later, scope, hlater, hscope, ?_⟩
    rw [List.getElem?_append_left (List.getElem?_eq_some_iff.mp hshadow).1]
    exact hshadow
  · intro index found hfound
    simp only [Machine.entering, Array.getElem?_push] at hfound
    split at hfound
    · cases hfound
      exact hnew
    · exact hshadowed.held.locals index found hfound

/-- The shadow is still there when a frame is left that came after it. -/
theorem leaving {inside : Machine} {scope : Option ScopeIndex}
    (hshadowed : Shadowed depth frame scopes machine)
    (hinside : Shadowed depth frame (scopes ++ [scope]) inside) :
    Shadowed depth frame scopes inside.leaving := by
  have hless := hshadowed.lt_length
  have hlength := hinside.length_eq
  rw [List.length_append, List.length_singleton] at hlength
  refine ⟨?_, ?_, hshadowed.shadow, ⟨hinside.held.stack, hinside.held.globals, ?_⟩⟩
  · rw [frameScopes_leaving, hinside.same, List.dropLast_concat]
  · have hdepth : depth < inside.frames.size - 1 := by omega
    rw [Machine.leaving, Array.getElem?_pop, if_pos hdepth]
    exact hinside.kept
  · intro index found hfound
    simp only [Machine.leaving, Array.getElem?_pop] at hfound
    split at hfound
    · exact hinside.held.locals index found hfound
    · cases hfound

end Shadowed

end Machine

/-- Being in the shadow is an invariant of runs. -/
def shadowInvariant (env : Environment) (depth : Nat) (frame : Frame) :
    Invariant (List (Option ScopeIndex)) env where
  holds := Shadowed depth frame
  allowed := (·.Outside depth)
  inner scopes scope := scopes ++ [scope]
  stack hshadowed := hshadowed.held.stack
  own hshadowed := hshadowed.own
  slot hshadowed _ hheld := hshadowed.slot hheld
  withStack hshadowed _ hstack := { hshadowed with held := { hshadowed.held with stack := hstack } }
  setSlot hshadowed haddress hvalue := hshadowed.setSlot haddress hvalue
  withLine hshadowed _ := { hshadowed with held := { hshadowed.held with } }
  withType hshadowed _ _ := { hshadowed with held := { hshadowed.held with } }
  withChannels hshadowed _ := { hshadowed with held := { hshadowed.held with } }
  emit hshadowed _ := { hshadowed with held := { hshadowed.held with } }
  enter := by
    intro scopes machine hshadowed scope parameters arguments harguments
    exact hshadowed.entering { scope, locals := Slots.bind parameters arguments }
      (.bind parameters harguments)
  leave hshadowed hinside := hshadowed.leaving hinside

/-- Activations are isolated. Whatever runs inside a new frame for the scope of an older
frame leaves the older frame as it is, unless an address into that frame is held when it
begins. -/
theorem perform_entering_frame (env : Environment) (task : Task) {machine : Machine}
    {depth : Nat} {frame new : Frame} {scope : ScopeIndex}
    (hframe : machine.frames[depth]? = some frame) (hscope : frame.scope = some scope)
    (hnew : new.scope = some scope) (hheld : (machine.entering new).HoldsNone depth) :
    (Outcome.machine (task.perform env (machine.entering new))).frames[depth]? = some frame := by
  have hless := (Array.getElem?_eq_some_iff.mp hframe).1
  have hshadowed : Shadowed depth frame (machine.entering new).frameScopes
      (machine.entering new) := by
    refine ⟨rfl, ?_, ⟨machine.frames.size, scope, hless, hscope, ?_⟩, hheld⟩
    · rw [Machine.entering, Array.getElem?_push, if_neg (by omega)]
      exact hframe
    · simp [frameScopes, Machine.entering, hnew]
  have hholds : (shadowInvariant env depth frame).holds (machine.entering new).frameScopes
      (machine.entering new) := hshadowed
  have hafter : Shadowed depth frame _ _ := (shadowInvariant env depth frame).perform hholds task
  exact hafter.kept

/-- A session with a procedure that stores into its parameter and calls itself. -/
def selfCalling : Environment where
  scopes := ⟨#[
    { index := ⟨0⟩
      symbols := #[
        { name := "again", home := ⟨0⟩
          defn := .routine .procedure
            { code := .interpreted [.push (.int 9), .store ⟨⟨1⟩, ⟨0⟩⟩, .fetch ⟨⟨1⟩, ⟨0⟩⟩,
                .call ⟨⟨0⟩, ⟨0⟩⟩]
              parameterCount := 1, parameters := [⟨⟨1⟩, ⟨0⟩⟩], scope := some ⟨1⟩ } }]
      names := .node .leaf "again" ⟨0⟩ .leaf
      order := some #[⟨0⟩]
      ranks := #[some ⟨0⟩] },
    { index := ⟨1⟩
      symbols := #[{ name := "n", home := ⟨1⟩, type := some .int, defn := .valueParameter }]
      names := .node .leaf "n" ⟨0⟩ .leaf
      order := some #[⟨0⟩]
      ranks := #[some ⟨0⟩] }]⟩
  settings := {}

/-- An activation of the procedure with some argument. -/
def activation (argument : Value) : Frame where
  scope := some ⟨1⟩
  locals := Slots.bind [⟨⟨1⟩, ⟨0⟩⟩] [argument]

theorem perform_entering_frame_recursive :
    let machine : Machine := { frames := #[activation (.int 5)] }
    let task : Task := .body [.push (.int 7), .store ⟨⟨1⟩, ⟨0⟩⟩, .push (.int 8), .call ⟨⟨0⟩, ⟨0⟩⟩]
    (machine.entering (activation (.int 6))).HoldsNone 0 ∧
      (Outcome.machine (task.perform selfCalling
        (machine.entering (activation (.int 6))))).frames[0]? = some (activation (.int 5)) := by
  intro machine task
  have hargument (n : Int32) : (activation (.int n)).locals.AllAllowed (·.Outside 0) :=
    .bind _ (by simp [Value.Allowed])
  have hheld : (machine.entering (activation (.int 6))).HoldsNone 0 := by
    refine ⟨by simp [machine, Machine.entering], .empty, ?_⟩
    intro other frame hframe
    have hmem := Array.mem_of_getElem? hframe
    simp only [machine, Machine.entering, List.push_toArray, List.cons_append, List.nil_append,
      List.mem_toArray, List.mem_cons, List.not_mem_nil, or_false] at hmem
    rcases hmem with rfl | rfl
    · exact hargument 5
    · exact hargument 6
  have hkept := @perform_entering_frame selfCalling task machine 0 (activation (.int 5))
    (activation (.int 6)) ⟨1⟩ rfl rfl rfl hheld
  exact ⟨hheld, hkept⟩

end ScopeMachine
