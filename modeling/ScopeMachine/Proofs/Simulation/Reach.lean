/-
# What corresponding runs come to

A simulation that allows every value to be converted carries over more than outcomes: where
the run in the first environment comes to an instruction, so does the run in the second, in
machines that correspond. In particular the two convert corresponding values to texts.

Where arrays stand is something that a run sees only by converting one. So it makes no
difference to any other run.
-/

import ScopeMachine.Proofs.Scopes.Reachable
import ScopeMachine.Proofs.Simulation.Invariant

namespace ScopeMachine

open Machine Outcome

/-- Code that agrees with code that goes through goes through. -/
theorem Outcome.Agree.exists_of_ok {α β : Type} {machines : Machine → Machine → Prop}
    {answers : α → β → Prop} {outcome : Outcome β} {a : α} {m : Machine}
    (hagree : Agree machines answers (.ok a m) outcome) :
    ∃ b n, outcome = .ok b n ∧ answers a b ∧ machines m n := by
  cases outcome with
  | ok b n => exact ⟨b, n, rfl, hagree⟩
  | error e n => exact hagree.elim

namespace Simulation

variable {View : Type} {first second : Environment} (sim : Simulation View first second)
variable {view : View} {m n : Machine} {r s : SymbolRef}

theorem room_eq (hmachines : sim.machines view m n) : n.room second = m.room first := by
  simp [Machine.room, sim.callDepth, sim.depth hmachines]

/-- The symbol of a corresponding reference is there too. -/
theorem exists_symbol (hrefs : sim.refs r s) {x : Symbol} (hx : first.scopes.symbol r = .ok x) :
    ∃ y, second.scopes.symbol s = .ok y ∧ Symbol.Corresponds sim.refs x y := by
  have hfound := sim.symbol hrefs
  cases hy : second.scopes.symbol s with
  | error refusal =>
      rw [hx, hy] at hfound
      exact hfound.elim
  | ok y =>
      rw [hx, hy] at hfound
      exact ⟨y, rfl, hfound⟩

theorem exists_resolve {addr : SymbolAddr} (hr : first.scopes.resolve addr = .ok r) :
    ∃ s, second.scopes.resolve addr = .ok s ∧ sim.refs r s := by
  have hfound := sim.resolve addr
  cases hs : second.scopes.resolve addr with
  | error refusal =>
      rw [hr, hs] at hfound
      exact hfound.elim
  | ok s =>
      rw [hr, hs] at hfound
      exact ⟨s, rfl, hfound⟩

/-- A call that starts a body starts the same body in the second environment. -/
theorem starts (hmachines : sim.machines view m n) (hrefs : sim.refs r s) {body : Body}
    {inside : Machine} (hstarts : Starts first r m body inside) :
    ∃ view' inside', Starts second s n body inside' ∧ sim.machines view' inside inside' := by
  obtain ⟨x, kind, routine, arguments, taken, announced, hx, hdefn, hcode, htaken, hannounced,
    rfl⟩ := hstarts
  obtain ⟨y, hy, hsymbols⟩ := sim.exists_symbol hrefs hx
  obtain ⟨routine', hdefn', hroutines⟩ := (hdefn ▸ hsymbols.defn).of_routine
  have hpopped := sim.popOperands hmachines x.name routine.parameters.length
  rw [htaken] at hpopped
  obtain ⟨arguments', taken', htaken', hoperands, hmiddle⟩ := hpopped.exists_of_ok
  have hhook : (Piece.entered x.name).hook? = some .routine := rfl
  have hentered := sim.announce hmiddle hhook
  rw [hannounced] at hentered
  obtain ⟨_, announced', hannounced', -, hlater⟩ := hentered.exists_of_ok
  have hcount := hroutines.parameters.length_eq
  have hscope : frameScope kind routine' = frameScope kind routine := by
    cases kind <;> simp [frameScope, hroutines.scope]
  refine ⟨sim.inner view (frameScope kind routine), _,
    ⟨y, kind, routine', hcount ▸ arguments', taken', announced', hy, hdefn',
      hroutines.code ▸ hcode, ?_, hsymbols.name ▸ hannounced', rfl⟩, ?_⟩
  · rw [← hsymbols.name]
    generalize routine'.parameters.length = count at hcount ⊢
    subst hcount
    exact htaken'
  · have hlist : (hcount ▸ arguments' : Vector Value _).toList = arguments'.toList := by
      generalize routine'.parameters.length = count at hcount ⊢
      subst hcount
      rfl
    rw [hscope, hlist]
    exact sim.enter hlater hroutines.parameters hoperands

theorem converts (hmachines : sim.machines view m n) (hrefs : sim.refs r s) {receiver : TypeId}
    {v : Value} (hconverts : Converts first r receiver m v) :
    ∃ w, Converts second s receiver n w ∧ Value.Corresponds sim.addresses v w := by
  obtain ⟨⟨x, kind, routine, hx, hdefn, hcode⟩, hhead, code, hasked, hother⟩ := hconverts
  obtain ⟨y, hy, hsymbols⟩ := sim.exists_symbol hrefs hx
  obtain ⟨routine', hdefn', hroutines⟩ := (hdefn ▸ hsymbols.defn).of_routine
  have hstack := sim.stack hmachines
  obtain ⟨rest, hrest⟩ := List.head?_eq_some_iff.mp hhead
  rw [hrest] at hstack
  obtain ⟨w, rest', hvalues, -, hstack'⟩ := List.forall₂_cons_left_iff.mp hstack
  refine ⟨w, ⟨⟨y, kind, routine', hy, hdefn', hroutines.code ▸ hcode⟩, ?_, code, ?_, hother⟩,
    hvalues⟩
  · rw [hstack']
    rfl
  · rw [sim.types hmachines, TypeStore.code_rename, hasked]

section AllShown

variable (hall : ∀ value, sim.shows value)

include hall

/-- Where the first run comes to an instruction, the second comes to it too. -/
theorem reaches {room : Nat} {body : Body} {op : Op} {here : Machine}
    (hreaches : Reaches first room body m op here) (hmachines : sim.machines view m n) :
    ∃ view' here', Reaches second room body n op here' ∧ sim.machines view' here here' := by
  induction hreaches generalizing view n with
  | first hop => exact ⟨view, n, .first hop, hmachines⟩
  | @later room op next rest m after here hop hdone hrest ih =>
      have hagree := sim.perform hmachines room op (fun _ _ _ value _ _ _ => hall value)
        fun fewer _ _ _ _ _ _ body _ _ _ hinside =>
          sim.runWithin fewer body hinside fun value _ => hall value
      rw [hdone] at hagree
      obtain ⟨_, after', hdone', -, hafter⟩ := hagree.exists_of_ok
      obtain ⟨view', here', hreaches', hhere⟩ := ih hafter
      exact ⟨view', here', .later hop hdone' hreaches', hhere⟩
  | within hcalls hbody ih =>
      obtain ⟨addr, ref, hcallee, hresolve, hstarts⟩ := hcalls
      obtain ⟨s, hresolve', hrefs⟩ := sim.exists_resolve hresolve
      obtain ⟨inner, inside', hstarts', hinside⟩ := sim.starts hmachines hrefs hstarts
      obtain ⟨view', here', hreaches', hhere⟩ := ih hinside
      exact ⟨view', here', .within ⟨addr, s, hcallee, hresolve', hstarts'⟩ hreaches', hhere⟩

theorem convertsWithin {room : Nat} {body : Body} {v : Value}
    (hconverts : ConvertsWithin first room body m v) (hmachines : sim.machines view m n) :
    ∃ w, ConvertsWithin second room body n w ∧ Value.Corresponds sim.addresses v w := by
  obtain ⟨addr, receiver, here, ref, hreaches, hresolve, hhere⟩ := hconverts
  obtain ⟨view', here', hreaches', hlater⟩ := sim.reaches hall hreaches hmachines
  obtain ⟨s, hresolve', hrefs⟩ := sim.exists_resolve hresolve
  obtain ⟨w, hconverts', hvalues⟩ := sim.converts hlater hrefs hhere
  exact ⟨w, ⟨addr, receiver, here', s, hreaches', hresolve', hconverts'⟩, hvalues⟩

/-- What a body converts in the first run has its counterpart in the second. -/
theorem converts_body {body : Body} {v : Value} (hmachines : sim.machines view m n)
    (hconverts : Task.Converts first m v (.body body)) :
    ∃ w, Task.Converts second n w (.body body) ∧ Value.Corresponds sim.addresses v w := by
  rw [Task.Converts] at hconverts
  rw [← sim.room_eq hmachines] at hconverts
  exact sim.convertsWithin hall hconverts hmachines

/-- What a call converts in the first run has its counterpart in the second. -/
theorem converts_routine {receiver : Option TypeId} {v : Value}
    (hmachines : sim.machines view m n) (hrefs : sim.refs r s)
    (hconverts : Task.Converts first m v (.routine r receiver)) :
    ∃ w, Task.Converts second n w (.routine s receiver) ∧
      Value.Corresponds sim.addresses v w := by
  rcases hconverts with ⟨type, htype, hhere⟩ | ⟨fewer, code, inside, hroom, hstarts, hwithin⟩
  · obtain ⟨w, hhere', hvalues⟩ := sim.converts hmachines hrefs hhere
    exact ⟨w, .inl ⟨type, htype, hhere'⟩, hvalues⟩
  · obtain ⟨inner, inside', hstarts', hinside⟩ := sim.starts hmachines hrefs hstarts
    obtain ⟨w, hwithin', hvalues⟩ := sim.convertsWithin hall hwithin hinside
    rw [← sim.room_eq hmachines] at hroom
    exact ⟨w, .inr ⟨fewer, code, inside', hroom, hstarts', hwithin'⟩, hvalues⟩

end AllShown

end Simulation

/-! ## Arrays in other places -/

/-- The invariant that holds of every machine. -/
def anyInvariant (env : Environment) : Invariant Unit env where
  holds _ _ := True
  allowed _ := True
  inner _ _ := ()
  stack _ _ _ _ _ := trivial
  own _ _ := trivial
  slot _ _ _ _ _ := trivial
  withStack _ _ _ := trivial
  setSlot _ _ _ := trivial
  withLine _ _ := trivial
  withType _ _ _ := trivial
  withChannels _ _ := trivial
  emit _ _ := trivial
  enter _ _ _ _ _ := trivial
  leave _ _ := trivial

/-- Where arrays stand makes no difference to a task that converts none to a text. -/
theorem Machine.Task.perform_placing {env : Environment} {machine : Machine} {task : Task}
    (hconverts : ∀ bytes, ¬ task.Converts env machine (.buffer bytes)) (places : Places) :
    task.perform (env.placing places) machine = task.perform env machine := by
  let sim := (anyInvariant env).simulation places
  have hmachines : sim.machines () machine machine := ⟨trivial, rfl⟩
  have hshows (value : Value) (hvalue : task.Converts env machine value) : sim.shows value := by
    refine .inr ?_
    rintro bytes rfl
    exact hconverts bytes hvalue
  have hagree : Agree (sim.machines ()) Eq (task.perform env machine)
      (task.perform (env.placing places) machine) := by
    cases task with
    | body code => exact sim.body hmachines code hshows
    | routine ref receiver => exact sim.routine hmachines rfl receiver hshows
  rw [hagree.eq_withMachine, ← hagree.machine.2, Outcome.withMachine_machine]

/-- A session with the member that makes a text. What it makes of an array is where the array
stands. -/
def makingTexts : Environment where
  scopes := ⟨#[{ index := ⟨0⟩
                 symbols := #[{ name := "to_str", home := ⟨0⟩
                                defn := .routine .function { code := .native .toStr } }]
                 names := .node .leaf "to_str" ⟨0⟩ .leaf
                 order := some #[⟨0⟩]
                 ranks := #[some ⟨0⟩] }]⟩
  settings := {}

theorem makingTexts_reachable : makingTexts.scopes.Reachable := by
  have hcreated : ScopeStore.Reachable ⟨#[{ index := ⟨0⟩ }]⟩ := .create .empty rfl
  have hentered := @ScopeStore.Reachable.enter _ _ ⟨0⟩ "to_str" {} ⟨0⟩ hcreated rfl
  have hdefined := @ScopeStore.Reachable.define _ _ ⟨⟨0⟩, ⟨0⟩⟩
    (fun symbol => { symbol with defn := .routine .function { code := .native .toStr } })
    (fun _ => rfl) (fun _ => rfl) hentered rfl
  exact @ScopeStore.Reachable.flatten _ _ ⟨0⟩ hdefined rfl

end ScopeMachine
