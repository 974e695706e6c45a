/-
# What code sends to the sink

Nothing that runs looks at what the sink has kept, or at where it goes. So running code
sends one sequence of pieces whatever the sink is, and all else that it leaves behind is
the same for every sink. Which pieces can be among them is bounded by the hooks that are
switched on: without the hook on routines no entry and no exit is announced.
-/

import ScopeMachine.Proofs.DepthLimits
import ScopeMachine.Proofs.Tracing

namespace ScopeMachine

open Machine Outcome

/-- The pieces that code sends, as an empty buffer keeps them. -/
def Machine.sent {α : Type} (machine : Machine) (work : Exec α) : List Piece :=
  (Outcome.machine (work (machine.withSink {}))).printed

/-- Whatever the sink is, the code ends alike and sends the same pieces, all of which
are of the given sort. -/
structure Machine.Sends {α : Type} (sort : Piece → Prop) (work : Exec α) (machine : Machine) :
    Prop where
  sorted : ∀ piece ∈ machine.sent work, sort piece
  same : ∀ sink : Sink, work (machine.withSink sink) =
    Outcome.withSink (work (machine.withSink {})) (sink.appendAll (machine.sent work))

/-- What can come out of a session: what the program writes, and announcements whose
hooks are switched on. -/
structure Environment.Emits (env : Environment) (sort : Piece → Prop) : Prop where
  written : ∀ text, sort (.written text)
  announced : ∀ piece hook, piece.hook? = some hook → env.settings.trace.has hook → sort piece

/-- `full` has kept every piece so far in a buffer, and `shown` is the same machine with
another sink that got these pieces. -/
structure Buffers (sort : Piece → Prop) (sink : Sink) (full shown : Machine) : Prop where
  buffer : full.channels.sink.destination = .buffer
  sorted : ∀ piece ∈ full.printed, sort piece
  shown : shown = full.withSink (sink.appendAll full.printed)

namespace Buffers

variable {sort : Piece → Prop} {sink : Sink} {full shown : Machine}

/-- The two machines may change alike in anything but the sink. -/
theorem change (hbuffers : Buffers sort sink full shown) (change : Machine → Machine)
    (hsink : (change full).channels.sink = full.channels.sink)
    (hchange : ∀ sink, change (full.withSink sink) = (change full).withSink sink) :
    Buffers sort sink (change full) (change shown) where
  buffer := hsink ▸ hbuffers.buffer
  sorted := by
    rw [printed, hsink]
    exact hbuffers.sorted
  shown := by rw [printed, hsink, hbuffers.shown, hchange, printed]

theorem printed_emit (hbuffer : full.channels.sink.destination = .buffer) (piece : Piece) :
    (full.emit piece).printed = full.printed ++ [piece] := by
  simp [printed, Machine.emit, Sink.pieces_append hbuffer]

/-- Both machines send the same piece. -/
theorem emit (hbuffers : Buffers sort sink full shown) {piece : Piece} (hsort : sort piece) :
    Buffers sort sink (full.emit piece) (shown.emit piece) where
  buffer := (Sink.destination_append _ piece).trans hbuffers.buffer
  sorted := by
    rw [printed_emit hbuffers.buffer]
    intro other hother
    rcases List.mem_append.mp hother with hother | hother
    · exact hbuffers.sorted other hother
    · rwa [List.mem_singleton.mp hother]
  shown := by
    rw [printed_emit hbuffers.buffer, Sink.appendAll_concat, hbuffers.shown]
    rfl

/-- Both machines make an announcement, meet the same refusal or have the hook switched
off. -/
theorem announce {env : Environment} (hbuffers : Buffers sort sink full shown)
    (hemits : env.Emits sort) {hook : Hook} {piece : TypeStore → Except TypeRefusal Piece}
    (hhook : ∀ types made, piece types = .ok made → made.hook? = some hook) :
    Agree (Buffers sort sink) Eq (Machine.announce env hook piece full)
      (Machine.announce env hook piece shown) := by
  have htypes : shown.types = full.types := by
    rw [hbuffers.shown]
    rfl
  simp only [Machine.announce, htypes]
  by_cases hhas : env.settings.trace.has hook
  · simp only [if_pos hhas]
    cases hmade : piece full.types with
    | error refusal => exact ⟨rfl, hbuffers⟩
    | ok made =>
        exact ⟨rfl, hbuffers.emit (hemits.announced made hook (hhook _ _ hmade) hhas)⟩
  · simp only [if_neg hhas]
    exact ⟨rfl, hbuffers⟩

end Buffers

/-- What is announced about a value is a fetch or a store. -/
theorem hook?_of_piece {symbol : Symbol} {value : Value} {types : TypeStore}
    {scopes : ScopeStore} {make : String → Option String → Piece} {hook : Hook} {made : Piece}
    (hmake : ∀ subject text, (make subject text).hook? = some hook)
    (hmade : (do
      let subject ← symbol.subject types
      let text ← value.render symbol.shownType types scopes
      return make subject text) = Except.ok made) : made.hook? = some hook := by
  cases hsubject : symbol.subject types with
  | error refusal => simp [hsubject, bind, Except.bind] at hmade
  | ok subject =>
      cases htext : value.render symbol.shownType types scopes with
      | error refusal => simp [hsubject, htext, bind, Except.bind] at hmade
      | ok text =>
          rw [hsubject, htext] at hmade
          cases hmade
          exact hmake subject text

/-! ## Machines that differ in their sinks -/

section Self

variable (env : Environment)

theorem callDepth_self : env.settings.callDepth = env.settings.callDepth := rfl

theorem resolve_self (addr : SymbolAddr) :
    Alike Eq (env.scopes.resolve addr) (env.scopes.resolve addr) :=
  .refl (fun _ => rfl) _

theorem symbol_self {r s : SymbolRef} (hrefs : r = s) :
    Alike (Symbol.Corresponds Eq) (env.scopes.symbol r) (env.scopes.symbol s) := by
  rw [hrefs]
  exact .refl Symbol.Corresponds.refl _

end Self

/-- A machine with a buffer simulates the machine with any other sink. -/
def sendingSimulation (env : Environment) {sort : Piece → Prop} (hemits : env.Emits sort)
    (sink : Sink) : Simulation Unit env env where
  machines _ := Buffers sort sink
  refs := Eq
  addresses := Eq
  constants := id
  inner _ _ := ()
  shows _ := env.Emits sort
  callDepth := callDepth_self env
  resolve := resolve_self env
  symbol := @symbol_self env
  depth hbuffers := by
    rw [hbuffers.shown]
    rfl
  stack hbuffers := by
    rw [hbuffers.shown, Value.corresponds_eq, List.forall₂_eq_eq_eq]
    rfl
  withStack hbuffers hstacks := by
    rw [Value.corresponds_eq, List.forall₂_eq_eq_eq] at hstacks
    subst hstacks
    exact hbuffers.change (fun machine => { machine with stack := _ }) rfl fun _ => rfl
  withLine line hbuffers :=
    hbuffers.change (fun machine => { machine with line }) rfl fun _ => rfl
  announce hbuffers hhook := hbuffers.announce hemits (by rintro _ _ ⟨⟩; exact hhook)
  fetched := by
    intro view full shown r s x y v w hbuffers hx hy hrefs hvalues
    rw [Value.corresponds_eq] at hvalues
    subst hrefs hvalues
    obtain rfl : x = y := Except.ok.inj (hx.symm.trans hy)
    exact hbuffers.announce hemits fun _ _ => hook?_of_piece fun _ _ => rfl
  stored := by
    intro view full shown r s x y v w hbuffers hx hy hrefs hvalues
    rw [Value.corresponds_eq] at hvalues
    subst hrefs hvalues
    obtain rfl : x = y := Except.ok.inj (hx.symm.trans hy)
    exact hbuffers.announce hemits fun _ _ => hook?_of_piece fun _ _ => rfl
  own hbuffers hrefs := by
    rw [hbuffers.shown, hrefs]
    rfl
  slot hbuffers haddresses := by
    rw [hbuffers.shown, haddresses]
    exact .refl _
  setSlot := by
    intro view full shown a b v w hbuffers haddresses hvalues
    rw [Value.corresponds_eq] at hvalues
    subst haddresses hvalues
    apply hbuffers.change (fun machine => machine.setSlot a v)
    · cases hplace : a.place <;> simp [Machine.setSlot, hplace]
    · intro other
      cases hplace : a.place <;> simp [Machine.setSlot, hplace, Machine.withSink]
  enter hbuffers hrefs hvalues := by
    rw [List.forall₂_eq_eq_eq] at hrefs
    rw [Value.corresponds_eq, List.forall₂_eq_eq_eq] at hvalues
    subst hrefs hvalues
    exact hbuffers.change (fun machine => machine.entering _) rfl fun _ => rfl
  leave _ hbuffers := hbuffers.change Machine.leaving rfl fun _ => rfl
  types hbuffers := by
    rw [hbuffers.shown, TypeStore.rename_id]
    rfl
  withType size count hbuffers := hbuffers.change
    (fun machine => { machine with
      types := (machine.types.allocate (.characters size count)).2 }) rfl fun _ => rfl
  channels hbuffers := by
    rw [hbuffers.shown]
    rfl
  withChannels channels hbuffers := by
    refine ⟨hbuffers.buffer, hbuffers.sorted, ?_⟩
    rw [hbuffers.shown]
    rfl
  written text hbuffers := hbuffers.emit (hemits.written text)
  text hvalues _ code id := by
    rw [Value.corresponds_eq] at hvalues
    rw [hvalues]

variable {env : Environment} {sort : Piece → Prop}

/-- Code that a buffer and any other sink agree on sends what the buffer keeps. -/
theorem Machine.Sends.of_agree {α : Type} {work : Exec α} {machine : Machine}
    (hagree : ∀ sink, Buffers sort sink (machine.withSink {}) (machine.withSink sink) →
      Agree (Buffers sort sink) Eq (work (machine.withSink {})) (work (machine.withSink sink))) :
    machine.Sends sort work := by
  have hstart (sink : Sink) : Buffers sort sink (machine.withSink {}) (machine.withSink sink) :=
    ⟨rfl, by simp [printed, Machine.withSink], rfl⟩
  refine ⟨(hagree {} (hstart {})).machine.sorted, fun sink => ?_⟩
  have hsink := hagree sink (hstart sink)
  rw [hsink.eq_withMachine, hsink.machine.shown, Outcome.withMachine_withSink]
  rfl

section Runs

variable (hemits : env.Emits sort) (machine : Machine)

include hemits

/-- A task sends the same pieces to every sink. -/
theorem sends_task (task : Task) : machine.Sends sort (task.perform env) := by
  apply Sends.of_agree
  intro sink hstart
  let sim := sendingSimulation env hemits sink
  have hmachines : sim.machines () (machine.withSink {}) (machine.withSink sink) := hstart
  cases task with
  | body code => exact sim.body hmachines code fun _ _ => hemits
  | routine ref receiver => exact sim.routine hmachines rfl receiver fun _ _ => hemits

/-- So does an instruction where no frame may be added. -/
theorem sends_perform (op : Op) : machine.Sends sort (perform env none op) := by
  apply Sends.of_agree
  intro sink hstart
  let sim := sendingSimulation env hemits sink
  have hmachines : sim.machines () (machine.withSink {}) (machine.withSink sink) := hstart
  exact sim.perform hmachines 0 op (fun _ _ _ _ _ _ _ => hemits)
    fun fewer _ _ hroom => by cases hroom

/-- And so does a call. -/
theorem sends_callSymbol (ref : SymbolRef) (receiver : Option TypeId) :
    machine.Sends sort (callSymbol env none ref receiver) := by
  apply Sends.of_agree
  intro sink hstart
  let sim := sendingSimulation env hemits sink
  have hmachines : sim.machines () (machine.withSink {}) (machine.withSink sink) := hstart
  have hrefs : sim.refs ref ref := rfl
  exact sim.callSymbol hmachines 0 hrefs receiver (fun _ _ _ _ => hemits)
    fun fewer hroom => by cases hroom

end Runs

end ScopeMachine
