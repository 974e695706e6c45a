/-
# The depth limit only cuts runs off

How deeply calls may nest is a setting, and nothing but the guard of a call reads it.
So the same code runs alike under two limits until the lower one refuses a call. A run
that ends otherwise ends the same way under every higher limit, and a run that is cut
off has printed a beginning of what it would go on to print.

Arrays need not be in the same places in the two runs, so the first of them must not
convert an array to a text, which shows its place.
-/

import ScopeMachine.Proofs.Isolation
import ScopeMachine.Proofs.Simulation.Reach
import ScopeMachine.Proofs.Stepping

namespace ScopeMachine

open Machine Outcome

/-- The environment with another limit on how deeply calls may nest. -/
def Environment.limitedTo (env : Environment) (limit : Nat) : Environment :=
  { env with settings := { env.settings with callDepth := limit } }

/-- The pieces that the sink has kept. -/
def Machine.printed (machine : Machine) : List Piece :=
  machine.channels.sink.pieces.toList

/-- A run under one limit and the same run under a higher one: they end alike, or the
first was refused a call when it had printed a beginning of what the second one did. -/
inductive Outcome.CutOff {α : Type} : Outcome α → Outcome α → Prop
  | same (outcome : Outcome α) : CutOff outcome outcome
  | refused {limit : Nat} {here : Machine} {whole : Outcome α}
      (hprinted : here.printed <+: whole.machine.printed) :
      CutOff (.error (.callDepthExceeded limit) here) whole

/-! ## What is printed stays printed -/

/-- What was printed at some time is an invariant of runs. -/
def printedInvariant (env : Environment) : Invariant (List Piece) env where
  holds pieces machine := pieces <+: machine.printed
  allowed _ := True
  inner pieces _ := pieces
  stack _ _ _ _ _ := trivial
  own _ _ := trivial
  slot _ _ _ _ _ := trivial
  withStack hprinted _ _ := hprinted
  setSlot := by
    intro pieces machine address value hprinted _ _
    obtain ⟨symbol, place⟩ := address
    cases place <;> exact hprinted
  withLine hprinted _ := hprinted
  withType hprinted _ _ := hprinted
  withChannels hprinted _ := hprinted
  emit := by
    intro pieces machine hprinted piece
    simp only [printed, emit, Sink.append]
    split
    · rw [Array.toList_push]
      exact hprinted.trans (List.prefix_append _ _)
    · exact hprinted
  enter hprinted _ _ _ _ := hprinted
  leave _ hinside := hinside

namespace Machine

/-- Code that keeps what was printed before. -/
def KeepsPrinted {α : Type} (work : Exec α) : Prop :=
  ∀ machine, machine.printed <+: (Outcome.machine (work machine)).printed

theorem keepsPrinted_pure {α : Type} (answer : α) : KeepsPrinted (pure answer) :=
  fun machine => List.prefix_refl machine.printed

theorem keepsPrinted_announce (env : Environment) (hook : Hook)
    (piece : TypeStore → Except TypeRefusal Piece) : KeepsPrinted (announce env hook piece) := by
  intro machine
  have hprinted : (printedInvariant env).holds machine.printed machine := List.prefix_refl _
  exact ((printedInvariant env).announce_agree hprinted env.places hook piece).machine.1

theorem keepsPrinted_callSymbol (env : Environment) (room : Nat) (ref : SymbolRef)
    (receiver : Option TypeId) : KeepsPrinted (callSymbol env (nestedIn env room) ref receiver) :=
  fun machine => (printedInvariant env).callSymbol (List.prefix_refl machine.printed) room ref
    receiver

theorem keepsPrinted_runOps (env : Environment) (room : Nat) (body : Body) :
    KeepsPrinted (runOps env (nestedIn env room) body) := by
  intro machine
  let sim := (printedInvariant env).simulation env.places
  have hmachines : sim.machines machine.printed machine machine := ⟨List.prefix_refl _, rfl⟩
  rw [← runWithin_eq]
  exact (sim.runWithin room body hmachines fun value _ =>
    (printedInvariant env).shows_self value).machine.1

end Machine

/-! ## Steps under two limits -/

namespace Outcome.CutOff

variable {α β : Type} {machine : Machine}

/-- Where the first parts of two sequences part, what the second of them goes on to do
only adds to what is printed. -/
theorem andThen {first second : Exec α} {next next' : α → Exec β}
    (hfirst : CutOff (first machine) (second machine))
    (hnext : ∀ answer here, CutOff (next answer here) (next' answer here))
    (hkeeps : ∀ answer, KeepsPrinted (next' answer)) :
    CutOff ((first >>= next) machine) ((second >>= next') machine) := by
  show CutOff (EStateM.bind first next machine) (EStateM.bind second next' machine)
  simp only [EStateM.bind]
  generalize first machine = before, second machine = after at hfirst
  cases hfirst with
  | same =>
      cases before with
      | ok answer here => exact hnext answer here
      | error error here => exact .same _
  | refused hprinted =>
      cases after with
      | ok answer here => exact .refused (hprinted.trans (hkeeps answer here))
      | error error here => exact .refused hprinted

/-- Two sequences that begin alike are compared from there on. -/
theorem afterSame (first : Exec α) {next next' : α → Exec β}
    (hnext : ∀ answer here, CutOff (next answer here) (next' answer here)) :
    CutOff ((first >>= next) machine) ((first >>= next') machine) := by
  show CutOff (EStateM.bind first next machine) (EStateM.bind first next' machine)
  simp only [EStateM.bind]
  cases first machine with
  | ok answer here => exact hnext answer here
  | error error here => exact .same _

theorem withFrame {frame : Frame} {work work' : Exec Unit}
    (hwork : CutOff (work (machine.entering frame)) (work' (machine.entering frame))) :
    CutOff (Machine.withFrame frame work machine) (Machine.withFrame frame work' machine) := by
  rw [withFrame_eq, withFrame_eq]
  generalize work (machine.entering frame) = before, work' (machine.entering frame) = after
    at hwork
  cases hwork with
  | same => exact .same _
  | refused hprinted => cases after <;> exact .refused hprinted

end Outcome.CutOff

/-! ## Runs under two limits -/

namespace Machine

variable {env : Environment} {ref : SymbolRef} {machine : Machine} {callee : Compiled}

/-- A call of a compiled routine runs its body and answers the declared type. -/
theorem callSymbol_of_compiled?_eq_some (hcompiled : compiled? env ref = some callee)
    (nested : Nested) (receiver : Option TypeId) :
    callSymbol env nested ref receiver = (do
      callBody env nested callee.symbol.name callee.kind callee.routine callee.body
      return callee.symbol.type.getD .void) := by
  obtain ⟨hsymbol, hdefn, hcode⟩ := compiled?_eq_some hcompiled
  unfold callSymbol
  simp only [hsymbol, ofScopes_ok_bind, hdefn, hcode]

theorem perform_limitedTo {op : Op} (hcallee : callee? op = none) (limit : Nat)
    (nested : Nested) :
    perform (env.limitedTo limit) nested op machine = perform env none op machine := by
  cases op with
  | call | callMember => cases hcallee
  | _ => rfl

@[simp]
theorem announce_limitedTo (limit : Nat) (hook : Hook)
    (piece : TypeStore → Except TypeRefusal Piece) :
    announce (env.limitedTo limit) hook piece = announce env hook piece := rfl

/-- Where there is room for a frame, only the body in it can tell two limits apart. -/
theorem callBody_cutOff {limit limit' : Nat} {run run' : Body → Exec Unit}
    (hbodies : ∀ body machine, CutOff (run body machine) (run' body machine)) :
    CutOff
      (callBody (env.limitedTo limit) (some run) callee.symbol.name callee.kind callee.routine
        callee.body machine)
      (callBody (env.limitedTo limit') (some run') callee.symbol.name callee.kind callee.routine
        callee.body machine) := by
  simp only [callBody, announce_limitedTo]
  apply CutOff.afterSame
  intro arguments taken
  apply CutOff.afterSame
  intro _ announced
  apply CutOff.andThen _ (fun _ _ => .same _) fun _ => keepsPrinted_announce env _ _
  exact .withFrame (hbodies callee.body _)

section TwoLimits

variable {limit limit' room room' : Nat} (hrooms : room ≤ room')
  (hbodies : ∀ fewer fewer', room = fewer + 1 → room' = fewer' + 1 → ∀ body machine,
    CutOff (runWithin (env.limitedTo limit) fewer body machine)
      (runWithin (env.limitedTo limit') fewer' body machine))

include hrooms hbodies

/-- A call under the lower limit is cut off at most if the bodies that it can run are. -/
theorem callSymbol_cutOff (ref : SymbolRef) (receiver : Option TypeId) (machine : Machine) :
    CutOff
      (callSymbol (env.limitedTo limit) (nestedIn (env.limitedTo limit) room) ref receiver machine)
      (callSymbol (env.limitedTo limit') (nestedIn (env.limitedTo limit') room') ref receiver
        machine) := by
  cases hcompiled : compiled? env ref with
  | none =>
      -- What does not call a compiled routine never meets the limit.
      have hsame (limit : Nat) (nested : Nested) :
          callSymbol (env.limitedTo limit) nested ref receiver machine =
            callSymbol env none ref receiver machine :=
        callSymbol_of_not_compiled (by rfl) (by rfl) hcompiled nested none receiver
      rw [hsame, hsame]
      exact .same _
  | some callee =>
      have hcompiledTo (limit : Nat) : compiled? (env.limitedTo limit) ref = some callee :=
        hcompiled
      cases room with
      | zero =>
          have hkeeps := keepsPrinted_callSymbol (env.limitedTo limit') room' ref receiver machine
          rw [callSymbol_of_compiled?_eq_some (hcompiledTo limit)]
          exact .refused hkeeps
      | succ fewer =>
          obtain ⟨fewer', rfl⟩ : ∃ fewer', room' = fewer' + 1 := ⟨room' - 1, by omega⟩
          rw [callSymbol_of_compiled?_eq_some (hcompiledTo limit),
            callSymbol_of_compiled?_eq_some (hcompiledTo limit')]
          apply CutOff.andThen _ (fun _ _ => .same _) fun _ => keepsPrinted_pure _
          exact callBody_cutOff (hbodies fewer fewer' rfl rfl)

/-- An instruction under the lower limit is cut off at most. -/
theorem perform_cutOff (op : Op) (machine : Machine) :
    CutOff (perform (env.limitedTo limit) (nestedIn (env.limitedTo limit) room) op machine)
      (perform (env.limitedTo limit') (nestedIn (env.limitedTo limit') room') op machine) := by
  have hcall (addr : SymbolAddr) (receiver : Option TypeId) : CutOff
      ((do
        let ref ← resolve env addr
        let _ ← callSymbol (env.limitedTo limit) (nestedIn (env.limitedTo limit) room) ref receiver)
        machine)
      ((do
        let ref ← resolve env addr
        let _ ← callSymbol (env.limitedTo limit') (nestedIn (env.limitedTo limit') room') ref
          receiver)
        machine) := by
    apply CutOff.afterSame (resolve env addr)
    intro ref here
    exact .andThen (callSymbol_cutOff hrooms hbodies ref receiver here) (fun _ _ => .same _)
      fun _ => keepsPrinted_pure _
  cases hcallee : callee? op with
  | none =>
      rw [perform_limitedTo hcallee, perform_limitedTo hcallee]
      exact .same _
  | some addr =>
      cases op with
      | call | callMember => exact hcall _ _
      | _ => cases hcallee

theorem runOps_cutOff (body : Body) (machine : Machine) :
    CutOff (runOps (env.limitedTo limit) (nestedIn (env.limitedTo limit) room) body machine)
      (runOps (env.limitedTo limit') (nestedIn (env.limitedTo limit') room') body machine) := by
  induction body generalizing machine with
  | nil => exact .same _
  | cons op rest ih =>
      by_cases hop : op = .leave
      · subst hop
        exact .same _
      · rw [runOps_cons _ _ rest hop, runOps_cons _ _ rest hop]
        exact .andThen (perform_cutOff hrooms hbodies op machine) (fun _ => ih)
          fun _ => keepsPrinted_runOps _ room' rest

end TwoLimits

/-- A body that is run with less room is cut off at most. -/
theorem runWithin_cutOff {room room' : Nat} (hrooms : room ≤ room') (limit limit' : Nat)
    (body : Body) (machine : Machine) :
    CutOff (runWithin (env.limitedTo limit) room body machine)
      (runWithin (env.limitedTo limit') room' body machine) := by
  induction room generalizing room' body machine with
  | zero =>
      rw [runWithin_eq, runWithin_eq]
      exact runOps_cutOff hrooms (fun fewer _ hroom => by cases hroom) body machine
  | succ room ih =>
      rw [runWithin_eq, runWithin_eq]
      apply runOps_cutOff hrooms _ body machine
      rintro fewer fewer' ⟨⟩ rfl body machine
      exact ih (Nat.le_of_succ_le_succ hrooms) body machine

end Machine

/-- A task under the lower of two limits is cut off at most. -/
theorem Machine.Task.perform_cutOff (env : Environment) {limit limit' : Nat}
    (hlimits : limit ≤ limit') (machine : Machine) (task : Task) :
    CutOff (task.perform (env.limitedTo limit) machine)
      (task.perform (env.limitedTo limit') machine) := by
  have hrooms : machine.room (env.limitedTo limit) ≤ machine.room (env.limitedTo limit') :=
    Nat.sub_le_sub_right hlimits _
  cases task with
  | body code =>
      apply CutOff.andThen _ (fun _ _ => .same _) fun _ => keepsPrinted_pure _
      exact runWithin_cutOff hrooms limit limit' code machine
  | routine ref receiver =>
      apply CutOff.andThen _ (fun _ _ => .same _) fun _ => keepsPrinted_pure _
      apply callSymbol_cutOff hrooms _ ref receiver machine
      intro fewer fewer' hfewer hfewer' body here
      exact runWithin_cutOff (by omega) limit limit' body here

/-- The depth limit only cuts runs off, where no array is converted to a text. Unless a task
fails because as many routines are active as may be, it comes under every higher limit to the
same outcome: the same answer or error, and the same machine with everything in it. If it does
fail so, what it has printed is the beginning of what it prints under the higher limit. In
which places arrays stand in the two runs is of no account, as the first run shows none. -/
theorem depth_limit_only_cuts_off (env : Environment) {limit limit' : Nat}
    (hlimits : limit ≤ limit') (machine : Machine) (task : Task)
    (hconverts : ∀ bytes, ¬ task.Converts (env.limitedTo limit) machine (.buffer bytes))
    (places : Places) :
    let tight := task.perform (env.limitedTo limit) machine
    let wide := task.perform ((env.limitedTo limit').placing places) machine
    ((∀ reached here, tight ≠ .error (.callDepthExceeded reached) here) → wide = tight) ∧
      ∀ reached here, tight = .error (.callDepthExceeded reached) here →
        ∃ more, (Outcome.machine wide).channels.sink.text = here.channels.sink.text ++ more := by
  intro tight wide
  have hcut : CutOff tight wide := by
    have hplaced : task.perform ((env.placing places).limitedTo limit) machine = tight :=
      Task.perform_placing hconverts places
    rw [← hplaced]
    exact Task.perform_cutOff (env.placing places) hlimits machine task
  generalize tight = tight, wide = wide at hcut
  cases hcut with
  | same =>
      refine ⟨fun _ => rfl, ?_⟩
      rintro reached here rfl
      exact ⟨"", by simp [Outcome.machine]⟩
  | refused hprinted =>
      refine ⟨fun hother => absurd rfl (hother _ _), ?_⟩
      rintro reached here ⟨⟩
      obtain ⟨more, hmore⟩ := hprinted
      refine ⟨Sink.textOf more, ?_⟩
      simp only [printed] at hmore
      rw [Sink.text, ← hmore, Sink.textOf_append, Sink.text]

/-- A recursion without end that is cut off after two calls has announced the first two
of the five calls that a limit of five lets through. -/
theorem depth_limit_only_cuts_off_recursion :
    let env : Environment := { selfCalling with settings := { trace := { routine := true } } }
    let machine : Machine := { stack := [.int 1] }
    let task : Task := .routine ⟨⟨0⟩, ⟨0⟩⟩ none
    2 ≤ 5 ∧ (∀ bytes, ¬ task.Converts (env.limitedTo 2) machine (.buffer bytes)) ∧
      ∃ here : Machine,
        task.perform (env.limitedTo 2) machine = .error (.callDepthExceeded 2) here ∧
          here.printed = [.entered "again", .entered "again"] ∧
          ∃ more, (Outcome.machine
              (task.perform ((env.limitedTo 5).placing .apart) machine)).channels.sink.text =
            here.channels.sink.text ++ more := by
  intro env machine task
  have hlimits : 2 ≤ 5 := by decide
  have hconverts : ∀ bytes, ¬ task.Converts (env.limitedTo 2) machine (.buffer bytes) := by
    have hnone (ref : SymbolRef) : ¬ NamesMember (env.limitedTo 2) ref .toStr :=
      not_namesMember_of_all (by decide) ref
    exact fun bytes => Task.not_converts hnone task machine _
  have htight : task.perform (env.limitedTo 2) machine =
      .error (.callDepthExceeded 2) (Outcome.machine (task.perform (env.limitedTo 2) machine)) := by
    decide +kernel
  refine ⟨hlimits, hconverts, _, htight, by decide +kernel, ?_⟩
  exact (depth_limit_only_cuts_off env hlimits machine task hconverts .apart).2 _ _ htight

/-- A text of an array shows where it stands, so two runs under two limits may part over it
although neither of them is cut off. -/
theorem depth_limit_array_shows_place :
    let machine : Machine := { stack := [.buffer [0x61]] }
    let task : Task := .routine ⟨⟨0⟩, ⟨0⟩⟩ (some .int)
    makingTexts.scopes.Reachable ∧
      (∀ reached here, task.perform (makingTexts.limitedTo 1) machine ≠
        .error (.callDepthExceeded reached) here) ∧
      task.perform ((makingTexts.limitedTo 2).placing fun _ => "0x7f0010") machine ≠
        task.perform (makingTexts.limitedTo 1) machine := by
  intro machine task
  have hdone : ∃ type after, task.perform (makingTexts.limitedTo 1) machine = .ok type after :=
    ⟨_, _, rfl⟩
  refine ⟨makingTexts_reachable, ?_, by decide +kernel⟩
  obtain ⟨type, after, hdone⟩ := hdone
  intro reached here hcut
  rw [hdone] at hcut
  cases hcut

end ScopeMachine
