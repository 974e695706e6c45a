/-
# Announcements of routines are well nested

With the hook on routines a run announces every routine that it enters and every one
that it leaves. These announcements form a word of brackets. While a run goes on, the
entries that no exit matches yet are those of the routines that are active, so a run
that goes through leaves a balanced word, and one that fails leaves a word that breaks
off where the error was raised.
-/

import ScopeMachine.Proofs.Sending
import ScopeMachine.Proofs.Stack.Discipline

namespace ScopeMachine

open Machine Outcome

/-- What the hook on routines announces. -/
inductive Passage where
  | entry (routine : String)
  | exit (routine : String)
deriving DecidableEq

namespace Passage

/-- Words in which every exit names the routine of the matching entry, with brackets
nested at most `depth` deep. -/
inductive Balanced : (depth : Nat) → List Passage → Prop
  | nil {depth : Nat} : Balanced depth []
  | enclose {depth : Nat} {inner rest : List Passage} (routine : String)
      (hinner : Balanced depth inner) (hrest : Balanced (depth + 1) rest) :
      Balanced (depth + 1) (.entry routine :: inner ++ .exit routine :: rest)

/-- Words that break off inside the given routines, the outermost first: balanced words
around one entry for each of them that has no exit. -/
inductive Pending : (depth : Nat) → (routines : List String) → List Passage → Prop
  | balanced {depth : Nat} {word : List Passage} (hword : Balanced depth word) :
      Pending depth [] word
  | within {depth : Nat} {before after : List Passage} (routine : String)
      {routines : List String} (hbefore : Balanced (depth + 1) before)
      (hafter : Pending depth routines after) :
      Pending (depth + 1) (routine :: routines) (before ++ .entry routine :: after)

variable {depth : Nat} {routine : String} {routines : List String} {word : List Passage}

theorem Balanced.append {later : List Passage} (hword : Balanced depth word)
    (hlater : Balanced depth later) : Balanced depth (word ++ later) := by
  induction hword with
  | nil => exact hlater
  | enclose routine hinner hrest ihinner ihrest =>
      have henclosed := Balanced.enclose routine hinner (ihrest hlater)
      simpa using henclosed

/-- A word that breaks off is the beginning of a balanced one. -/
theorem Pending.exists_balanced (hpending : Pending depth routines word) :
    ∃ rest, Balanced depth (word ++ rest) := by
  induction hpending with
  | balanced hword => exact ⟨[], by simpa using hword⟩
  | within routine hbefore hafter ih =>
      obtain ⟨rest, hrest⟩ := ih
      have hwhole := hbefore.append (.enclose routine hrest .nil)
      exact ⟨rest ++ [.exit routine], by simpa using hwhole⟩

/-- A word that breaks off inside no routine is balanced. -/
theorem Pending.balanced_of_nil (hpending : Pending depth [] word) : Balanced depth word := by
  cases hpending with
  | balanced hword => exact hword

/-- A routine is entered. -/
theorem Pending.entered (hpending : Pending depth routines word) (routine : String)
    (hless : routines.length < depth) :
    Pending depth (routines ++ [routine]) (word ++ [.entry routine]) := by
  induction hpending with
  | @balanced depth word hword =>
      obtain ⟨fewer, rfl⟩ : ∃ fewer, depth = fewer + 1 := ⟨depth - 1, by simp at hless; omega⟩
      exact .within routine hword (.balanced .nil)
  | within outer hbefore hafter ih =>
      have hinside := ih (by simpa using hless)
      simpa using Pending.within outer hbefore hinside

/-- The innermost routine is left. -/
theorem Pending.exited (hpending : Pending depth (routines ++ [routine]) word) :
    Pending depth routines (word ++ [.exit routine]) := by
  generalize hroutines : routines ++ [routine] = names at hpending
  induction hpending generalizing routines with
  | balanced hword => simp at hroutines
  | within outer hbefore hafter ih =>
      cases routines with
      | nil =>
          obtain ⟨rfl, rfl⟩ : routine = outer ∧ [] = _ := by simpa using hroutines
          cases hafter with
          | balanced hinner =>
              have hwhole := hbefore.append (.enclose routine hinner .nil)
              simpa using Pending.balanced hwhole
      | cons first others =>
          obtain ⟨rfl, hothers⟩ : first = outer ∧ others ++ [routine] = _ := by
            simpa using hroutines
          simpa using Pending.within first hbefore (ih hothers)

end Passage

/-- The entry or exit that a piece announces. -/
def Piece.passage? : Piece → Option Passage
  | .entered routine => some (.entry routine)
  | .exited routine => some (.exit routine)
  | _ => none

/-- The entries and exits among pieces. -/
def Piece.passages (pieces : List Piece) : List Passage :=
  pieces.filterMap Piece.passage?

theorem Piece.passages_append (first second : List Piece) :
    passages (first ++ second) = passages first ++ passages second :=
  List.filterMap_append

/-- The session without the hook on routines. -/
def Environment.unannounced (env : Environment) : Environment :=
  { env with settings.trace.routine := false }

namespace Machine

/-- The entries and exits that the sink has kept. -/
def passages (machine : Machine) : List Passage :=
  Piece.passages machine.printed

/-- The routines of the bodies that are run, the outermost first. -/
def Caller.routines (callers : List Caller) : List String :=
  (callers.map Caller.routine).reverse

/-- The point at which a task begins. -/
def Task.start (machine : Machine) : Task → Point
  | .body code => .running code [] machine
  | .routine ref receiver => .calling ref receiver [] [] machine

namespace Point

/-- The callers of the body that is run at a point, as long as no error has come up. -/
def active? : Point → Option (List Caller)
  | running _ callers _ => some callers
  | calling _ _ _ callers _ => some callers
  | failing _ _ _ => none
  | finished _ => none

/-- The step from a point meets an error, and these callers wait for the body that is run. -/
structure Raises (env : Environment) (point : Point) (error : EvalError)
    (callers : List Caller) (here : Machine) : Prop where
  active : point.active? = some callers
  step : Point.step env point = .failing error callers here

end Point

/-! ## Most code announces no entry and no exit -/

/-- Nothing is announced of routines between two states of a machine. -/
structure Silent (before after : Machine) : Prop where
  destination : after.channels.sink.destination = before.channels.sink.destination
  passages : after.passages = before.passages

variable {env : Environment} {machine after : Machine}

theorem Silent.of_sink (hsink : after.channels.sink = machine.channels.sink) :
    Silent machine after where
  destination := by rw [hsink]
  passages := by rw [Machine.passages, Machine.passages, printed, printed, hsink]

theorem Silent.trans {last : Machine} (hfirst : Silent machine after)
    (hsecond : Silent after last) : Silent machine last where
  destination := hsecond.destination.trans hfirst.destination
  passages := hsecond.passages.trans hfirst.passages

/-- A buffer keeps the entry or exit that a piece announces. -/
theorem passages_of_append {piece : Piece} (hbuffer : machine.channels.sink.destination = .buffer)
    (hsink : after.channels.sink = machine.channels.sink.append piece) :
    after.passages = machine.passages ++ piece.passage?.toList := by
  rw [passages, passages, printed, printed, hsink, Sink.pieces_append hbuffer,
    Array.toList_push, Piece.passages_append]
  cases hpassage : piece.passage? <;> simp [Piece.passages, hpassage]

theorem Silent.of_append {piece : Piece} (hpiece : piece.passage? = none)
    (hsink : after.channels.sink = machine.channels.sink.append piece) : Silent machine after := by
  by_cases hbuffer : machine.channels.sink.destination = .buffer
  · have hpassages := passages_of_append hbuffer hsink
    rw [hpiece, Option.toList_none, List.append_nil] at hpassages
    exact ⟨by rw [hsink, Sink.destination_append], hpassages⟩
  · exact .of_sink (hsink.trans (Sink.append_of_ne_buffer hbuffer piece))

/-- Pieces that are no entries and exits add none. -/
theorem Silent.of_appendAll {pieces : List Piece} (hnone : ∀ piece ∈ pieces, piece.passage? = none)
    (hsink : after.channels.sink = machine.channels.sink.appendAll pieces) :
    Silent machine after := by
  induction pieces generalizing machine with
  | nil => exact .of_sink hsink
  | cons piece rest ih =>
      let middle := machine.withSink (machine.channels.sink.append piece)
      have hfirst : Silent machine middle := .of_append (hnone piece List.mem_cons_self) rfl
      have hothers := (List.forall_mem_cons.mp hnone).2
      exact hfirst.trans (ih hothers hsink)

theorem unannounced_emits (env : Environment) :
    env.unannounced.Emits (fun piece => piece.passage? = none) where
  written _ := rfl
  announced piece hook hhook hhas := by
    cases piece with
    | entered routine | exited routine =>
        cases hhook
        cases hhas
    | _ => rfl

/-- What sends no entry and no exit is silent. -/
theorem Sends.silent {α : Type} {work : Exec α}
    (hsends : machine.Sends (fun piece => piece.passage? = none) work) :
    Silent machine (Outcome.machine (work machine)) := by
  apply Silent.of_appendAll hsends.sorted
  have hsame := hsends.same machine.channels.sink
  have hself : machine.withSink machine.channels.sink = machine := rfl
  rw [hself] at hsame
  rw [hsame]
  cases work (machine.withSink {}) <;> rfl

theorem perform_unannounced {op : Op} (hcallee : callee? op = none) :
    perform env.unannounced none op = perform env none op := by
  cases op with
  | call | callMember => cases hcallee
  | _ => rfl

/-- An instruction that calls nothing is silent. -/
theorem silent_perform {op : Op} (hcallee : callee? op = none) (machine : Machine) :
    Silent machine (Outcome.machine (perform env none op machine)) := by
  rw [← perform_unannounced hcallee]
  exact (sends_perform (unannounced_emits env) machine op).silent

/-- So is a call of anything but a compiled routine. -/
theorem silent_callSymbol {ref : SymbolRef} (hcompiled : compiled? env ref = none)
    (receiver : Option TypeId) (machine : Machine) :
    Silent machine (Outcome.machine (callSymbol env none ref receiver machine)) := by
  have hsame : callSymbol env.unannounced none ref receiver machine =
      callSymbol env none ref receiver machine :=
    callSymbol_of_not_compiled rfl rfl hcompiled none none receiver
  rw [← hsame]
  exact (sends_callSymbol (unannounced_emits env) machine ref receiver).silent

/-! ## Entry and exit -/

theorem sink_popOperands (machine : Machine) (taker : String) (count : Nat) :
    (Outcome.machine (popOperands taker count machine)).channels.sink = machine.channels.sink := by
  simp only [popOperands]
  split <;> rfl

section Enabled

variable (henabled : env.settings.trace.has .routine)

include henabled

/-- Entering a routine announces it, and being refused announces nothing. -/
theorem Compiled.sink_enter (callee : Compiled) (machine : Machine) :
    match callee.enter env machine with
    | .ok _ inside =>
      inside.channels.sink = machine.channels.sink.append (.entered callee.symbol.name)
    | .error _ here => here.channels.sink = machine.channels.sink := by
  have htaken := sink_popOperands machine callee.symbol.name callee.routine.parameters.length
  simp only [Compiled.enter, bind, EStateM.bind]
  cases hpop : popOperands callee.symbol.name callee.routine.parameters.length machine with
  | error error here =>
      rw [hpop] at htaken
      exact htaken
  | ok arguments taken =>
      rw [hpop] at htaken
      simp only [announce, henabled, if_true]
      exact congrArg (Sink.append · _) htaken

theorem exit_eq (name : String) (machine : Machine) :
    exit env name machine = .ok () (machine.leaving.emit (.exited name)) := by
  show announce env .routine (fun _ => .ok (.exited name)) machine.leaving = _
  simp only [announce, henabled, if_true]

end Enabled

/-! ## What one step does -/

/-- What a step does about the routines that are active: it goes on in the same body, meets
an error there, enters a routine, leaves one, or ends the run. -/
inductive Moves (env : Environment) (callers : List Caller) (machine : Machine) : Point → Prop
  | on {next : Point} (hactive : next.active? = some callers)
      (hframes : next.machine.frames.size = machine.frames.size)
      (hsilent : Silent machine next.machine) : Moves env callers machine next
  | raised {error : EvalError} {here : Machine}
      (hframes : here.frames.size = machine.frames.size) (hsilent : Silent machine here) :
      Moves env callers machine (.failing error callers here)
  | entered {routine : String} {body rest : Body} {inside : Machine}
      (hroom : machine.frames.size < env.settings.callDepth)
      (hframes : inside.frames.size = machine.frames.size + 1)
      (hsink : inside.channels.sink = machine.channels.sink.append (.entered routine)) :
      Moves env callers machine (.running body (⟨routine, rest⟩ :: callers) inside)
  | left {caller : Caller} {others : List Caller} (hcallers : callers = caller :: others) :
      Moves env callers machine
        (.running caller.rest others (machine.leaving.emit (.exited caller.routine)))
  | ended (hcallers : callers = []) : Moves env callers machine (.finished (.ok () machine))

namespace Point

variable {callers : List Caller} {rest : Body} {point : Point}

/-- A body goes on after a silent outcome, or meets an error. -/
theorem moves_proceed {α : Type} {outcome : Outcome α}
    (hframes : (Outcome.machine outcome).frames.size = machine.frames.size)
    (hsilent : Silent machine (Outcome.machine outcome)) :
    Moves env callers machine (proceed rest callers outcome) := by
  cases outcome with
  | ok answer after => exact .on rfl hframes hsilent
  | error error after => exact .raised hframes hsilent

theorem moves_instruction (op : Op) (rest : Body) (callers : List Caller) (machine : Machine) :
    Moves env callers machine (instruction env op rest callers machine) := by
  unfold instruction
  cases hcallee : callee? op with
  | none => exact moves_proceed (size_perform env 0 machine op) (silent_perform hcallee machine)
  | some addr =>
      dsimp only
      cases env.scopes.resolve addr with
      | ok ref => exact .on rfl rfl (.of_sink rfl)
      | error refusal => exact .raised rfl (.of_sink rfl)

section Enabled

variable (henabled : env.settings.trace.has .routine)

include henabled

theorem moves_goBack (callers : List Caller) (machine : Machine) :
    Moves env callers machine (goBack env callers machine) := by
  cases callers with
  | nil => exact .ended rfl
  | cons caller others =>
      rw [goBack, exit_eq henabled]
      exact .left rfl

theorem moves_call (ref : SymbolRef) (receiver : Option TypeId) (rest : Body)
    (callers : List Caller) (machine : Machine) :
    Moves env callers machine (call env ref receiver rest callers machine) := by
  unfold call
  cases hcompiled : compiled? env ref with
  | none =>
      exact moves_proceed (size_callSymbol env 0 machine ref receiver)
        (silent_callSymbol hcompiled receiver machine)
  | some callee =>
      by_cases hroom : machine.frames.size < env.settings.callDepth
      · simp only [if_pos hroom]
        have hsink := callee.sink_enter henabled machine
        rcases callee.enter_cases env machine with
          ⟨error, here, henter, hframes⟩ | ⟨inside, henter, hframes⟩
        · rw [henter] at hsink ⊢
          exact .raised (congrArg Array.size hframes) (.of_sink hsink)
        · rw [henter] at hsink ⊢
          exact .entered hroom hframes hsink
      · simp only [if_neg hroom]
        exact .raised rfl (.of_sink rfl)

/-- Every step of a run without an error so far is one of these moves. -/
theorem moves_step (hactive : point.active? = some callers) :
    Moves env callers point.machine (step env point) := by
  cases point with
  | running body _ machine =>
      cases hactive
      cases body with
      | nil => exact moves_goBack henabled callers machine
      | cons op rest =>
          by_cases hop : op = .leave
          · subst hop
            exact moves_goBack henabled callers machine
          · rw [step_running hop]
            exact moves_instruction op rest callers machine
  | calling ref receiver rest _ machine =>
      cases hactive
      exact moves_call henabled ref receiver rest callers machine
  | failing | finished => cases hactive

/-- A step that meets an error announces no entry and no exit. -/
theorem Raises.passages {error : EvalError} {here : Machine}
    (hraises : Raises env point error callers here) :
    here.passages = point.machine.passages := by
  have hmoves := moves_step henabled hraises.active
  rw [hraises.step] at hmoves
  cases hmoves with
  | on hnone => cases hnone
  | raised hframes hsilent => exact hsilent.passages

end Enabled

end Point

/-! ## From point to point -/

/-- The announcements so far break off inside the routines that are active, and there is
a frame for each of these on top of the frames at the start. -/
structure Tracks (start : Machine) (depth : Nat) (callers : List Caller) (machine : Machine) :
    Prop where
  frames : machine.frames.size = start.frames.size + callers.length
  buffer : machine.channels.sink.destination = .buffer
  pending : Passage.Pending depth (Caller.routines callers) machine.passages

namespace Tracks

variable {start : Machine} {depth : Nat} {callers : List Caller}

theorem silent (htracks : Tracks start depth callers machine)
    (hframes : after.frames.size = machine.frames.size) (hsilent : Silent machine after) :
    Tracks start depth callers after where
  frames := hframes.trans htracks.frames
  buffer := hsilent.destination.trans htracks.buffer
  pending := hsilent.passages ▸ htracks.pending

/-- A routine is entered. -/
theorem enter (htracks : Tracks start depth callers machine) {routine : String} (rest : Body)
    (hframes : after.frames.size = machine.frames.size + 1)
    (hsink : after.channels.sink = machine.channels.sink.append (.entered routine))
    (hless : callers.length < depth) : Tracks start depth (⟨routine, rest⟩ :: callers) after where
  frames := by
    rw [hframes, htracks.frames, List.length_cons]
    omega
  buffer := by
    rw [hsink, Sink.destination_append, htracks.buffer]
  pending := by
    rw [passages_of_append htracks.buffer hsink]
    have hentered := htracks.pending.entered routine (by simpa [Caller.routines] using hless)
    simpa [Caller.routines, Piece.passage?] using hentered

/-- The innermost routine is left. -/
theorem exit {caller : Caller} (htracks : Tracks start depth (caller :: callers) machine) :
    Tracks start depth callers (machine.leaving.emit (.exited caller.routine)) where
  frames := by
    have hframes := htracks.frames
    rw [List.length_cons] at hframes
    show machine.frames.pop.size = _
    rw [Array.size_pop]
    omega
  buffer := (Sink.destination_append _ _).trans htracks.buffer
  pending := by
    have hpassages : (machine.leaving.emit (.exited caller.routine)).passages =
        machine.passages ++ (Piece.exited caller.routine).passage?.toList :=
      passages_of_append htracks.buffer rfl
    rw [hpassages]
    have hpending := htracks.pending
    simp only [Caller.routines, List.map_cons, List.reverse_cons] at hpending
    simpa [Caller.routines, Piece.passage?] using hpending.exited

end Tracks

namespace Point

variable {start : Machine} {depth : Nat} {callers : List Caller} {begin point : Point}

/-- An error was raised on the way, and nothing was announced of routines since. -/
def Broken (env : Environment) (start : Machine) (depth : Nat) (begin : Point)
    (error : EvalError) (machine : Machine) : Prop :=
  ∃ point callers here, Comes env begin point ∧ Raises env point error callers here ∧
    Tracks start depth callers here ∧ machine.passages = here.passages

/-- What is known of the announcements at any point of a run. -/
def Announced (env : Environment) (start : Machine) (depth : Nat) (begin : Point) :
    Point → Prop
  | running _ callers machine => Tracks start depth callers machine
  | calling _ _ _ callers machine => Tracks start depth callers machine
  | failing error _ machine => Broken env start depth begin error machine
  | finished (.ok _ machine) => Tracks start depth [] machine
  | finished (.error error machine) => Broken env start depth begin error machine

theorem announced_iff_tracks (hactive : point.active? = some callers) :
    Announced env start depth begin point ↔ Tracks start depth callers point.machine := by
  cases point with
  | running | calling =>
      cases hactive
      exact Iff.rfl
  | failing | finished => cases hactive

section Enabled

variable (henabled : env.settings.trace.has .routine)
  (hdepth : depth = env.settings.callDepth - start.frames.size)

include henabled hdepth

/-- What is known of the announcements is kept by every step. -/
theorem announced_step (hcomes : Comes env begin point)
    (hannounced : Announced env start depth begin point) :
    Announced env start depth begin (step env point) := by
  cases hactive : point.active? with
  | none =>
      -- Only frames are taken away, so what was announced stays the same.
      cases point with
      | running | calling => cases hactive
      | failing error callers machine => cases callers <;> exact hannounced
      | finished outcome => exact hannounced
  | some callers =>
      rw [announced_iff_tracks hactive] at hannounced
      have hmoves := moves_step henabled hactive
      generalize hnext : step env point = next at hmoves
      cases hmoves with
      | on hon hframes hsilent =>
          rw [announced_iff_tracks hon]
          exact hannounced.silent hframes hsilent
      | raised hframes hsilent =>
          have hhere := hannounced.silent hframes hsilent
          exact ⟨point, callers, _, hcomes, ⟨hactive, hnext⟩, hhere, rfl⟩
      | entered hroom hframes hsink =>
          have hsize := hannounced.frames
          exact hannounced.enter _ hframes hsink (by omega)
      | left hcallers =>
          subst hcallers
          exact hannounced.exit
      | ended hcallers =>
          subst hcallers
          exact hannounced

/-- What is known at the start is known at every point that a run comes to. -/
theorem Announced.of_comes (hbegin : Announced env start depth begin begin)
    (hcomes : Comes env begin point) : Announced env start depth begin point := by
  obtain ⟨count, rfl⟩ := hcomes
  induction count with
  | zero => exact hbegin
  | succ count ih =>
      rw [Function.iterate_succ_apply']
      exact announced_step henabled hdepth ⟨count, rfl⟩ ih

end Enabled

end Point

/-! ## Whole tasks -/

open Point

theorem comes_of_task (env : Environment) (machine : Machine) (task : Task) :
    Comes env (task.start machine) (.finished (Outcome.forget (task.perform env machine))) := by
  cases task with
  | body code =>
      have hcomes := comes_of_run env code machine
      have hforget : Outcome.forget ((Task.body code).perform env machine) =
          run env code machine := by
        simp only [Task.perform, bind, EStateM.bind]
        cases run env code machine <;> rfl
      rwa [hforget]
  | routine ref receiver =>
      have hcomes := comes_of_call env ref receiver machine
      have hforget : Outcome.forget ((Task.routine ref receiver).perform env machine) =
          Outcome.forget (call env ref receiver machine) := by
        simp only [Task.perform, bind, EStateM.bind]
        cases call env ref receiver machine <;> rfl
      rwa [hforget]

/-- What the pieces that a task sends tell about its routines, where the task begins with an
empty buffer and brackets can be nested as deeply as frames may be added. -/
structure Nests (env : Environment) (machine : Machine) (task : Task) : Prop where
  /-- The announcements of a task that goes through match, routine by routine. -/
  balanced : ∀ answer after, task.perform env (machine.withSink {}) = .ok answer after →
    Passage.Balanced (machine.room env) (Piece.passages (machine.sent (task.perform env)))
  /-- Those of a task that fails break off inside the routines that were active when the
  error was raised, each of which had a frame. -/
  broken : ∀ error after, task.perform env (machine.withSink {}) = .error error after →
    ∃ point callers here, Comes env (task.start (machine.withSink {})) point ∧
      point.Raises env error callers here ∧
      here.frames.size = machine.frames.size + callers.length ∧
      Passage.Pending (machine.room env) (Caller.routines callers)
        (Piece.passages (machine.sent (task.perform env)))
  /-- In any case they begin a word that could be balanced. -/
  begun : ∃ rest, Passage.Balanced (machine.room env)
    (Piece.passages (machine.sent (task.perform env)) ++ rest)
  /-- On the way they break off inside the routines that are active. -/
  underway : ∀ point callers, Comes env (task.start (machine.withSink {})) point →
    point.active? = some callers →
    Passage.Pending (machine.room env) (Caller.routines callers) point.machine.passages
  /-- A step that meets an error, be it a call that is refused, adds nothing to them. -/
  refused : ∀ point error callers here, Comes env (task.start (machine.withSink {})) point →
    point.Raises env error callers here → here.passages = point.machine.passages

/-- The announcements of routines are well nested. A task sends the same pieces whatever the
sink is, and the entries and exits among them follow the routines that are active. -/
theorem announcements_nest (env : Environment) (henabled : env.settings.trace.has .routine)
    (machine : Machine) (task : Task) :
    machine.Sends (fun _ => True) (task.perform env) ∧ Nests env machine task := by
  refine ⟨sends_task ⟨fun _ => trivial, fun _ _ _ _ => trivial⟩ machine task, ?_⟩
  let start := machine.withSink {}
  have hbegin : Announced env start (machine.room env) (task.start start) (task.start start) := by
    have hstart : Tracks start (machine.room env) [] start := ⟨rfl, rfl, .balanced .nil⟩
    cases task <;> exact hstart
  have hannounced (point : Point) (hcomes : Comes env (task.start start) point) :
      Announced env start (machine.room env) (task.start start) point :=
    .of_comes henabled rfl hbegin hcomes
  have hlast := hannounced _ (comes_of_task env start task)
  have hbalanced : ∀ answer after, task.perform env start = .ok answer after →
      Passage.Balanced (machine.room env) (Piece.passages (machine.sent (task.perform env))) := by
    intro answer after hdone
    rw [hdone] at hlast
    have hpending : Passage.Pending _ [] after.passages := Tracks.pending hlast
    rw [sent, show task.perform env (machine.withSink {}) = _ from hdone]
    exact hpending.balanced_of_nil
  have hbroken : ∀ error after, task.perform env start = .error error after →
      ∃ point callers here, Comes env (task.start start) point ∧
        point.Raises env error callers here ∧ Tracks start (machine.room env) callers here ∧
        Piece.passages (machine.sent (task.perform env)) = here.passages := by
    intro error after hfailed
    rw [hfailed] at hlast
    obtain ⟨point, callers, here, hcomes, hraises, htracks, hpassages⟩ := hlast
    refine ⟨point, callers, here, hcomes, hraises, htracks, ?_⟩
    rw [sent, show task.perform env (machine.withSink {}) = _ from hfailed]
    exact hpassages
  refine ⟨hbalanced, ?_, ?_, ?_, fun _ _ _ _ _ hraises => hraises.passages henabled⟩
  · intro error after hfailed
    obtain ⟨point, callers, here, hcomes, hraises, htracks, hpassages⟩ :=
      hbroken error after hfailed
    exact ⟨point, callers, here, hcomes, hraises, htracks.frames, hpassages ▸ htracks.pending⟩
  · cases houtcome : task.perform env start with
    | ok answer after => exact ⟨[], by simpa using hbalanced answer after houtcome⟩
    | error error after =>
        obtain ⟨_, _, _, _, _, htracks, hpassages⟩ := hbroken error after houtcome
        exact hpassages ▸ htracks.pending.exists_balanced
  · intro point callers hcomes hactive
    exact ((announced_iff_tracks hactive).mp (hannounced point hcomes)).pending

/-- An error inside the second of two routines leaves both entries without an exit. -/
theorem announcements_nest_twice :
    let env : Environment :=
      { scopes := incrementAndTwice, settings := { trace := { routine := true } } }
    let machine : Machine := { stack := [.buffer []] }
    let task : Task := .routine ⟨⟨0⟩, ⟨1⟩⟩ none
    env.settings.trace.has .routine ∧
      machine.sent (task.perform env) = [.entered "twice", .entered "increment"] ∧
      machine.Sends (fun _ => True) (task.perform env) ∧ Nests env machine task := by
  intro env machine task
  have henabled : env.settings.trace.has .routine := rfl
  have hsent : machine.sent (task.perform env) = [.entered "twice", .entered "increment"] := by
    decide +kernel
  exact ⟨henabled, hsent, announcements_nest env henabled machine task⟩

end Machine

end ScopeMachine
