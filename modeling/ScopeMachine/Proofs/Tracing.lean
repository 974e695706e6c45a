/-
# Tracing is a side channel

The hooks of a trace announce what a running program does and change nothing of
it. A run sends one sequence of pieces, whatever is traced. The hooks that are
switched on only choose which of the announcements in that sequence come out, and
everything else that a run leaves behind is the same under any choice.

Announcing a value asks the types for its form, which may be refused. So the
types have to be made by the operations of this library, and the declared types
of symbols have to be there. And two runs need not have their arrays in the same
places, so a run must not convert an array to a text, which shows where it stands.
-/

import ScopeMachine.Proofs.Simulation.Reach
import ScopeMachine.Proofs.Types.Grounded

namespace ScopeMachine

open Machine Outcome

/-- The environment with another choice of hooks. -/
def Environment.tracing (env : Environment) (flags : TraceFlags) : Environment :=
  { env with settings := { env.settings with trace := flags } }

/-- The declared types of all symbols are there. -/
def Environment.TypesKnown (env : Environment) (types : TypeStore) : Prop :=
  ∀ ref symbol id, env.scopes.symbol ref = .ok symbol → symbol.type = some id →
    id.index < types.size

/-- Values can be announced on a hook. Types are to be asked only about types that their own
operations have made; a symbol that is declared with any other number breaks this contract,
and what is asked for it has no answer. Nothing is asked for a hook that is switched off. -/
def Environment.Announces (env : Environment) (hook : Hook) (types : TypeStore) : Prop :=
  env.settings.trace.has hook → types.Reachable ∧ env.TypesKnown types

/-- Whether a piece comes out: what the program writes always does, and an
announcement does if its hook is switched on. -/
def TraceFlags.shows (flags : TraceFlags) (piece : Piece) : Bool :=
  piece.hook?.all flags.has

/-- Send pieces one after the other. -/
def Sink.appendAll (sink : Sink) (pieces : List Piece) : Sink :=
  pieces.foldl Sink.append sink

/-- The same machine with another sink. -/
def Machine.withSink (machine : Machine) (sink : Sink) : Machine :=
  { machine with channels := machine.channels.withSink sink }

/-- The same outcome with another sink in the machine that is left. -/
def Outcome.withSink {α : Type} (outcome : Outcome α) (sink : Sink) : Outcome α :=
  match outcome with
  | .ok answer after => .ok answer (after.withSink sink)
  | .error error after => .error error (after.withSink sink)

@[simp]
theorem Outcome.withMachine_withSink {α : Type} (outcome : Outcome α) (sink : Sink) :
    outcome.withMachine (outcome.machine.withSink sink) = outcome.withSink sink := by
  cases outcome <;> rfl

namespace Sink

variable (sink : Sink) (pieces : List Piece)

theorem appendAll_concat (piece : Piece) :
    sink.appendAll (pieces ++ [piece]) = (sink.appendAll pieces).append piece := by
  simp [appendAll]

/-- A buffer keeps all pieces. -/
theorem appendAll_buffer (hbuffer : sink.destination = .buffer) :
    sink.appendAll pieces = { sink with pieces := sink.pieces ++ pieces } := by
  obtain ⟨destination, kept⟩ := sink
  obtain rfl : destination = .buffer := hbuffer
  induction pieces generalizing kept with
  | nil => simp [appendAll]
  | cons piece rest ih =>
      have hrest := ih (kept.push piece)
      simpa [appendAll, append] using hrest

end Sink

/-! ## Announcements can be made -/

namespace Symbol

variable {env : Environment} {types : TypeStore} {ref : SymbolRef} {symbol : Symbol}

/-- A value is shown under a type that is there. -/
theorem shownType_lt (hreachable : types.Reachable) (hknown : env.TypesKnown types)
    (hsymbol : env.scopes.symbol ref = .ok symbol) : symbol.shownType.index < types.size := by
  cases htype : symbol.type with
  | none =>
      have hsize := hreachable.size_le
      simp only [shownType, htype, Option.getD_none, TypeId.void]
      omega
  | some id => simpa [shownType, htype] using hknown ref symbol id hsymbol htype

/-- A value of a symbol can be announced. -/
theorem exists_piece (hreachable : types.Reachable) (hknown : env.TypesKnown types)
    (hsymbol : env.scopes.symbol ref = .ok symbol) (value : Value)
    (make : String → Option String → Piece) :
    ∃ subject text, (do
      let subject ← symbol.subject types
      let text ← value.render symbol.shownType types env.scopes
      return make subject text) = Except.ok (make subject text) := by
  have hshown := shownType_lt hreachable hknown hsymbol
  obtain ⟨shape, hshape⟩ := TypeStore.exists_shape hshown
  obtain ⟨text, htext⟩ := hreachable.grounded.exists_render hshown value env.scopes
  refine ⟨symbol.name ++ formMark shape, text, ?_⟩
  simp only [subject, hshape, htext]
  rfl

end Symbol

/-! ## A run with all hooks and a run with some -/

/-- `full` has kept every piece of a run so far, and `shown` is the same machine but
for the sink, which got the pieces that `flags` let through. -/
structure Mirrors (env : Environment) (flags : TraceFlags) (sink : Sink)
    (full shown : Machine) : Prop where
  buffer : full.channels.sink.destination = .buffer
  shown : shown = full.withSink
    (sink.appendAll (full.channels.sink.pieces.toList.filter flags.shows))
  reachable : full.types.Reachable
  known : env.TypesKnown full.types

namespace Mirrors

variable {env : Environment} {flags : TraceFlags} {sink : Sink} {full shown : Machine}

/-- The two machines may change alike in anything but types and channels. -/
theorem change (hmirrors : Mirrors env flags sink full shown) (change : Machine → Machine)
    (htypes : (change full).types = full.types)
    (hsink : (change full).channels.sink = full.channels.sink)
    (hchange : ∀ sink, change (full.withSink sink) = (change full).withSink sink) :
    Mirrors env flags sink (change full) (change shown) where
  buffer := hsink ▸ hmirrors.buffer
  shown := by rw [hsink, hmirrors.shown, hchange]
  reachable := htypes ▸ hmirrors.reachable
  known := htypes ▸ hmirrors.known

/-- A piece that is sent to the full machine comes out if the hooks let it. -/
theorem emit (hmirrors : Mirrors env flags sink full shown) (piece : Piece) :
    Mirrors env flags sink (full.emit piece)
      (if flags.shows piece then shown.emit piece else shown) where
  buffer := by
    have hbuffer := hmirrors.buffer
    simp [Machine.emit, Sink.append, hbuffer]
  shown := by
    have hbuffer := hmirrors.buffer
    rw [hmirrors.shown]
    by_cases hshows : flags.shows piece
    · simp [Machine.emit, Sink.append, Machine.withSink, Channels.withSink, hbuffer, hshows,
        Sink.appendAll_concat]
    · simp [Machine.emit, Sink.append, Machine.withSink, Channels.withSink, hbuffer, hshows]
  reachable := hmirrors.reachable
  known := hmirrors.known

/-- An announcement that can be made is made with all hooks, and with some if its
hook is among them. -/
theorem announce (hmirrors : Mirrors env flags sink full shown) {hook : Hook}
    {piece : TypeStore → Except TypeRefusal Piece} {made : Piece}
    (hmade : piece full.types = .ok made) (hhook : made.hook? = some hook) :
    Agree (Mirrors env flags sink) Eq (Machine.announce (env.tracing .all) hook piece full)
      (Machine.announce (env.tracing flags) hook piece shown) := by
  have hshownTypes : shown.types = full.types := by
    rw [hmirrors.shown]
    rfl
  have hall : TraceFlags.all.has hook = true := by cases hook <;> rfl
  have hshows : flags.shows made = flags.has hook := by simp [TraceFlags.shows, hhook]
  have hafter := hmirrors.emit made
  simp only [Machine.announce, Environment.tracing, hshownTypes, hmade, hall, if_true]
  rw [hshows] at hafter
  split at hafter
  · rename_i hhas
    simp only [hhas, if_true]
    exact ⟨rfl, hafter⟩
  · rename_i hhas
    simp only [hhas, Bool.false_eq_true, if_false]
    exact ⟨rfl, hafter⟩

end Mirrors

/-- A run with all hooks simulates the run with some of them. -/
def tracingSimulation (env : Environment) (flags : TraceFlags) (sink : Sink) :
    Simulation Unit (env.tracing .all) (env.tracing flags) where
  machines _ := Mirrors env flags sink
  refs := Eq
  addresses := Eq
  constants := id
  inner _ _ := ()
  shows _ := True
  callDepth := rfl
  resolve addr := .refl (fun _ => rfl) _
  symbol := by
    rintro r _ rfl
    exact .refl Symbol.Corresponds.refl _
  depth hmirrors := by
    rw [hmirrors.shown]
    rfl
  stack hmirrors := by
    rw [hmirrors.shown, Value.corresponds_eq, List.forall₂_eq_eq_eq]
    rfl
  withStack hmirrors hstacks := by
    rw [Value.corresponds_eq, List.forall₂_eq_eq_eq] at hstacks
    subst hstacks
    exact hmirrors.change (fun machine => { machine with stack := _ }) rfl rfl fun _ => rfl
  withLine line hmirrors :=
    hmirrors.change (fun machine => { machine with line }) rfl rfl fun _ => rfl
  announce hmirrors hhook := hmirrors.announce rfl hhook
  fetched := by
    intro view full shown r s x y v w hmirrors hx hy hrefs hvalues
    rw [Value.corresponds_eq] at hvalues
    subst hrefs hvalues
    obtain rfl : x = y := Except.ok.inj (hx.symm.trans hy)
    obtain ⟨subject, text, hpiece⟩ :=
      Symbol.exists_piece hmirrors.reachable hmirrors.known hx v .fetched
    exact hmirrors.announce hpiece rfl
  stored := by
    intro view full shown r s x y v w hmirrors hx hy hrefs hvalues
    rw [Value.corresponds_eq] at hvalues
    subst hrefs hvalues
    obtain rfl : x = y := Except.ok.inj (hx.symm.trans hy)
    obtain ⟨subject, text, hpiece⟩ :=
      Symbol.exists_piece hmirrors.reachable hmirrors.known hx v .stored
    exact hmirrors.announce hpiece rfl
  own hmirrors hrefs := by
    rw [hmirrors.shown, hrefs]
    rfl
  slot hmirrors haddresses := by
    rw [hmirrors.shown, haddresses]
    exact .refl _
  setSlot := by
    intro view full shown a b v w hmirrors haddresses hvalues
    rw [Value.corresponds_eq] at hvalues
    subst haddresses hvalues
    apply hmirrors.change (fun machine => machine.setSlot a v)
    · cases hplace : a.place <;> simp [Machine.setSlot, hplace]
    · cases hplace : a.place <;> simp [Machine.setSlot, hplace]
    · intro other
      cases hplace : a.place <;> simp [Machine.setSlot, hplace, Machine.withSink]
  enter hmirrors hrefs hvalues := by
    rw [List.forall₂_eq_eq_eq] at hrefs
    rw [Value.corresponds_eq, List.forall₂_eq_eq_eq] at hvalues
    subst hrefs hvalues
    exact hmirrors.change (fun machine => machine.entering _) rfl rfl fun _ => rfl
  leave _ hmirrors := hmirrors.change Machine.leaving rfl rfl fun _ => rfl
  types hmirrors := by
    rw [hmirrors.shown, TypeStore.rename_id]
    rfl
  withType size count hmirrors := by
    have hsize := hmirrors.reachable.size_le
    refine ⟨hmirrors.buffer, ?_, ?_, ?_⟩
    · rw [hmirrors.shown]
      rfl
    · apply hmirrors.reachable.allocate
      simp only [TypeShape.RefersBelow, TypeInfo.characters, TypeId.char]
      omega
    · intro ref symbol id hsymbol htype
      have hid := hmirrors.known ref symbol id hsymbol htype
      rw [TypeStore.size_allocate]
      omega
  channels hmirrors := by
    rw [hmirrors.shown]
    rfl
  withChannels channels hmirrors := by
    refine ⟨hmirrors.buffer, ?_, hmirrors.reachable, hmirrors.known⟩
    rw [hmirrors.shown]
    rfl
  written text hmirrors := by
    have hafter := hmirrors.emit (.written text)
    rwa [if_pos (by rfl)] at hafter
  text hvalues _ code id := by
    rw [Value.corresponds_eq] at hvalues
    rw [hvalues]
    rfl

section AllAndSome

variable {env : Environment} {machine : Machine} {task : Task}
variable (htypes : machine.types.Reachable) (hknown : env.TypesKnown machine.types)

include htypes hknown

/-- A task that is traced by all hooks comes to the same outcome with some of them. -/
theorem Machine.Task.mirrors_perform (flags : TraceFlags) :
    Agree (Mirrors env flags machine.channels.sink) Eq
      (task.perform (env.tracing .all) (machine.withSink {}))
      (task.perform (env.tracing flags) machine) := by
  let sim := tracingSimulation env flags machine.channels.sink
  have hmachines : sim.machines () (machine.withSink {}) machine := ⟨rfl, rfl, htypes, hknown⟩
  cases task with
  | body code => exact sim.body hmachines code fun _ _ => trivial
  | routine ref receiver => exact sim.routine hmachines rfl receiver fun _ _ => trivial

/-- What a task converts with all hooks it converts with those that are on. -/
theorem Machine.Task.converts_of_all {value : Value}
    (hconverts : task.Converts (env.tracing .all) (machine.withSink {}) value) :
    task.Converts env machine value := by
  let sim := tracingSimulation env env.settings.trace machine.channels.sink
  have hmachines : sim.machines () (machine.withSink {}) machine := ⟨rfl, rfl, htypes, hknown⟩
  have hcounterpart : ∃ other, task.Converts env machine other ∧
      Value.Corresponds Eq value other := by
    cases task with
    | body code => exact sim.converts_body (fun _ => trivial) hmachines hconverts
    | routine ref receiver =>
        exact sim.converts_routine (fun _ => trivial) hmachines rfl hconverts
  obtain ⟨other, hother, hvalues⟩ := hcounterpart
  rw [Value.corresponds_eq] at hvalues
  rwa [hvalues]

end AllAndSome

/-- Tracing is a side channel. Whatever is run, unless it converts an array to a text,
one outcome and one sequence of pieces serve all choices of hooks, and all places in
which arrays may stand: with some hooks the outcome is that one, but that the sink got
the pieces that these hooks let through. A buffer thus captures what the program writes
and what these hooks announce, in the order of the sequence. -/
theorem perform_tracing (env : Environment) (machine : Machine) (task : Task)
    (htypes : machine.types.Reachable) (hknown : env.TypesKnown machine.types)
    (hconverts : ∀ bytes, ¬ task.Converts env machine (.buffer bytes)) :
    ∃ (outcome : Outcome (Option TypeId)) (pieces : List Piece),
      ∀ (flags : TraceFlags) (places : Places),
        let traced := task.perform ((env.placing places).tracing flags) machine
        traced =
            outcome.withSink (machine.channels.sink.appendAll (pieces.filter flags.shows)) ∧
          (machine.channels.sink.destination = .buffer →
            (Outcome.machine traced).channels.sink.text =
              machine.channels.sink.text ++ Sink.textOf (pieces.filter flags.shows)) := by
  let sink := machine.channels.sink
  let outcome : Outcome (Option TypeId) := task.perform (env.tracing .all) (machine.withSink {})
  refine ⟨outcome, outcome.machine.channels.sink.pieces.toList, ?_⟩
  intro flags places traced
  have hconvertsAll (bytes : List UInt8) :
      ¬ task.Converts (env.tracing .all) (machine.withSink {}) (.buffer bytes) :=
    fun hall => hconverts bytes (Task.converts_of_all htypes hknown hall)
  have hplaced : task.perform ((env.placing places).tracing .all) (machine.withSink {}) =
      outcome := Task.perform_placing hconvertsAll places
  have hagree : Agree (Mirrors (env.placing places) flags sink) Eq outcome traced := by
    rw [← hplaced]
    have hknownPlaced : (env.placing places).TypesKnown machine.types := hknown
    exact Task.mirrors_perform htypes hknownPlaced flags
  have hsame : traced = outcome.withSink
      (sink.appendAll (outcome.machine.channels.sink.pieces.toList.filter flags.shows)) := by
    rw [hagree.eq_withMachine, hagree.machine.shown, Outcome.withMachine_withSink]
  refine ⟨hsame, fun hbuffer => ?_⟩
  have hsink (sink : Sink) : (outcome.withSink sink).machine.channels.sink = sink := by
    cases outcome <;> rfl
  rw [hsame, hsink, Sink.appendAll_buffer _ _ hbuffer]
  simp [Sink.text]

/-- A session with one global, the integer `x`. -/
def oneGlobal : Environment where
  scopes := ⟨#[{ index := ⟨0⟩
                 symbols := #[{ name := "x", home := ⟨0⟩, type := some .int, defn := .variable }]
                 names := .node .leaf "x" ⟨0⟩ .leaf
                 order := some #[⟨0⟩]
                 ranks := #[some ⟨0⟩] }]⟩
  settings := {}

/-- A body that stores into the global, fetches it twice, and goes on with too few
operands. -/
def storeAndAdd : Body :=
  [.statement 7, .push (.int 5), .store ⟨⟨0⟩, ⟨0⟩⟩, .fetch ⟨⟨0⟩, ⟨0⟩⟩, .fetch ⟨⟨0⟩, ⟨0⟩⟩,
    .arithmetic .add, .arithmetic .mul]

theorem perform_tracing_oneGlobal :
    TypeStore.predefined.Reachable ∧ oneGlobal.TypesKnown .predefined ∧
      (∀ bytes, ¬ (Task.body storeAndAdd).Converts oneGlobal {} (.buffer bytes)) ∧
      ∃ (outcome : Outcome (Option TypeId)) (pieces : List Piece),
        ∀ (flags : TraceFlags) (places : Places),
          let traced :=
            (Task.body storeAndAdd).perform ((oneGlobal.placing places).tracing flags) {}
          traced = outcome.withSink (Sink.appendAll {} (pieces.filter flags.shows)) ∧
            (Destination.buffer = .buffer →
              (Outcome.machine traced).channels.sink.text =
                Sink.text {} ++ Sink.textOf (pieces.filter flags.shows)) := by
  have hknown : oneGlobal.TypesKnown .predefined := by
    intro ref symbol id hsymbol
    have hall : ∀ scope ∈ oneGlobal.scopes.scopes.toList, ∀ symbol ∈ scope.symbols.toList,
        symbol.type = some .int := by decide
    rw [ScopeStore.symbol_of_all hall hsymbol]
    rintro ⟨⟩
    decide
  have hconverts (bytes : List UInt8) :
      ¬ (Task.body storeAndAdd).Converts oneGlobal {} (.buffer bytes) :=
    not_convertsWithin_of_callee?_eq_none (by decide) _ _
  exact ⟨.predefined, hknown, hconverts,
    perform_tracing oneGlobal {} (.body storeAndAdd) .predefined hknown hconverts⟩

/-- A text of an array shows where it stands, so two runs with other hooks may part over
it. -/
theorem tracing_array_shows_place :
    let machine : Machine := { stack := [.buffer [0x61]] }
    let task : Task := .routine ⟨⟨0⟩, ⟨0⟩⟩ (some .int)
    makingTexts.scopes.Reachable ∧ machine.types.Reachable ∧
      makingTexts.TypesKnown machine.types ∧
      ¬ ∃ outcome : Outcome (Option TypeId), ∀ (flags : TraceFlags) (places : Places),
        ∃ sink, task.perform ((makingTexts.placing places).tracing flags) machine =
          outcome.withSink sink := by
  intro machine task
  have hknown : makingTexts.TypesKnown machine.types := by
    intro ref symbol id hsymbol
    have hall : ∀ scope ∈ makingTexts.scopes.scopes.toList, ∀ symbol ∈ scope.symbols.toList,
        symbol.type = none := by decide
    rw [ScopeStore.symbol_of_all hall hsymbol]
    nofun
  refine ⟨makingTexts_reachable, .predefined, hknown, ?_⟩
  rintro ⟨outcome, houtcome⟩
  have hstack (flags : TraceFlags) (places : Places) :
      (Outcome.machine (task.perform ((makingTexts.placing places).tracing flags) machine)).stack =
        outcome.machine.stack := by
    obtain ⟨sink, hsame⟩ := houtcome flags places
    rw [hsame]
    cases outcome <;> rfl
  have hparted := (hstack {} fun _ => "0x10").trans (hstack .all fun _ => "0x20").symm
  revert hparted
  decide +kernel

end ScopeMachine
