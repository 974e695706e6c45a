/-
# Runs end

Nothing in the code bounds how deeply its routines call each other, but a call counts
the frames that are active. So there are never more of them than the settings allow,
and every run ends: a call that would add one frame too many is refused before it
changes anything, and the error ends the run.

An instruction by itself may still ask for the type behind a chain of subranges. Where
such a chain leads back to itself there is no end to follow it to, so the chains among
the types have to end. Running code adds no subrange and so keeps them that way.
-/

import ScopeMachine.Proofs.Errors.Runs
import ScopeMachine.Proofs.Isolation
import ScopeMachine.Proofs.Stepping
import ScopeMachine.Proofs.Types.Grounded

namespace ScopeMachine

open TypeStore

/-! ## No question goes on for ever -/

theorem Answerable.of_ended {α : Type} {found : Except TypeRefusal α} (hended : Ended found) :
    Answerable (· ≠ .types .endless) found := by
  rintro refusal hrefused ⟨⟩
  exact hended hrefused

/-- Where chains of subranges end, no question about a type goes on for ever. -/
def endingAllowance (env : Environment) : Allowance env where
  types := ChainsEnd
  allows error := error ≠ .types .endless
  receivers _ := True
  own := by
    rintro _ hown rfl
    exact hown trivial
  unresolved _ _ _ := nofun
  leads _ _ _ _ _ := nofun
  grows hends _ _ := hends.allocate nofun
  character {store} _ := .of_ended (store.ended_find .char)
  receiver {store id} hends _ := ⟨.of_ended (store.ended_find id), .of_ended (hends.ended_code id)⟩
  constant hends _ := .of_ended (hends.ended_code _)
  announced {store _ symbol} hends _ value make := by
    apply Answerable.of_ended
    have hsubject : Ended (symbol.subject store) :=
      (store.ended_shape symbol.shownType).bind fun shape => ended_ok _
    apply hsubject.bind
    intro subject
    exact (hends.ended_render value symbol.shownType env.scopes).bind fun text => ended_ok _
  bodies _ _ _ _ _ := trivial

namespace Machine

/-- A run that begins at some point ends with an outcome. On the way there are never
more frames than allowed, and a call of a routine that would add one more is refused
by an error and leaves the machine as it is, but for the frames that the error takes
away in the end. Nor is a question about a type followed without end. -/
structure EndsWith (env : Environment) (start : Point) (outcome : Outcome Unit) : Prop where
  ends : Point.Comes env start (.finished outcome)
  bounded : ∀ point, Point.Comes env start point →
    point.machine.frames.size ≤ env.settings.callDepth
  guarded : ∀ ref receiver rest callers here,
    Point.Comes env start (.calling ref receiver rest callers here) →
    (compiled? env ref).isSome → env.settings.callDepth ≤ here.frames.size →
    Machine.call env ref receiver here =
        .error (.callDepthExceeded env.settings.callDepth) here ∧
      outcome = .error (.callDepthExceeded env.settings.callDepth)
        (leaving^[callers.length] here)
  answered : ∀ here, outcome ≠ .error (.types .endless) here

variable {env : Environment} {ref : SymbolRef} {machine : Machine} {callee : Compiled}

/-- A call of a compiled routine is refused where there is no room, and nothing changes. -/
theorem call_of_full (hcompiled : compiled? env ref = some callee)
    (hfull : env.settings.callDepth ≤ machine.frames.size) (receiver : Option TypeId) :
    call env ref receiver machine =
      .error (.callDepthExceeded env.settings.callDepth) machine := by
  have hroom : machine.room env = 0 := Nat.sub_eq_zero_of_le hfull
  have hforget : Outcome.forget (callSymbol env none ref receiver machine) = _ :=
    forget_callSymbol hcompiled none receiver
  rw [call, hroom, nestedIn]
  cases hcall : callSymbol env none ref receiver machine with
  | ok answer here =>
      rw [hcall] at hforget
      cases hforget
  | error error here =>
      rw [hcall] at hforget
      cases hforget
      rfl

/-! ## No step adds a frame too many -/

namespace Point

variable {point later : Point} {callers : List Caller} {rest : Body}

theorem size_goBack (hframes : machine.frames.size ≤ env.settings.callDepth) :
    (goBack env callers machine).machine.frames.size ≤ env.settings.callDepth := by
  cases callers with
  | nil => exact hframes
  | cons caller others =>
      obtain ⟨here, hexit, hpop⟩ := exists_exit env machine caller.routine
      rw [goBack, hexit, machine_proceed]
      show here.frames.size ≤ _
      rw [hpop, Array.size_pop]
      omega

theorem size_instruction (op : Op) (hframes : machine.frames.size ≤ env.settings.callDepth) :
    (instruction env op rest callers machine).machine.frames.size ≤ env.settings.callDepth := by
  unfold instruction
  cases callee? op with
  | none =>
      rw [machine_proceed]
      exact Nat.le_trans (Nat.le_of_eq (size_perform env 0 machine op)) hframes
  | some addr =>
      dsimp only
      cases env.scopes.resolve addr <;> exact hframes

/-- A call adds a frame only if there is room for it. -/
theorem size_call (receiver : Option TypeId)
    (hframes : machine.frames.size ≤ env.settings.callDepth) :
    (call env ref receiver rest callers machine).machine.frames.size ≤
      env.settings.callDepth := by
  unfold call
  cases compiled? env ref with
  | none =>
      rw [machine_proceed]
      exact Nat.le_trans (Nat.le_of_eq (size_callSymbol env 0 machine ref receiver)) hframes
  | some callee =>
      by_cases hroom : machine.frames.size < env.settings.callDepth
      · simp only [if_pos hroom]
        rcases callee.enter_cases env machine with
          ⟨error, here, henter, hhere⟩ | ⟨inside, henter, hinside⟩
        · rw [henter]
          show here.frames.size ≤ _
          rwa [hhere]
        · rw [henter]
          show inside.frames.size ≤ _
          omega
      · simp only [if_neg hroom]
        exact hframes

theorem size_step (hframes : point.machine.frames.size ≤ env.settings.callDepth) :
    (step env point).machine.frames.size ≤ env.settings.callDepth := by
  cases point with
  | running body callers machine =>
      cases body with
      | nil => exact size_goBack hframes
      | cons op rest =>
          by_cases hop : op = .leave
          · subst hop
            exact size_goBack hframes
          · rw [step_running hop]
            exact size_instruction op hframes
  | calling ref receiver rest callers machine => exact size_call receiver hframes
  | failing error callers machine =>
      cases callers with
      | nil => exact hframes
      | cons caller others =>
          show machine.frames.pop.size ≤ _
          rw [Array.size_pop]
          exact Nat.le_trans (Nat.sub_le _ _) hframes
  | finished outcome => exact hframes

/-- What every step keeps holds at every point that a run comes to. -/
theorem Comes.size_le (hcomes : Comes env point later)
    (hframes : point.machine.frames.size ≤ env.settings.callDepth) :
    later.machine.frames.size ≤ env.settings.callDepth := by
  obtain ⟨count, rfl⟩ := hcomes
  induction count generalizing point with
  | zero => exact hframes
  | succ count ih => exact ih (size_step hframes)

end Point

/-! ## Runs and calls end -/

open Point

/-- Where a run begins with no more frames than allowed, it is enough that it ends. -/
theorem EndsWith.of_comes {start : Point} {outcome : Outcome Unit}
    (hends : Comes env start (.finished outcome))
    (hframes : start.machine.frames.size ≤ env.settings.callDepth)
    (hcovered : (endingAllowance env).Covered outcome) : EndsWith env start outcome where
  ends := hends
  answered := by
    rintro here rfl
    exact hcovered.1 rfl
  bounded point hcomes := hcomes.size_le hframes
  guarded ref receiver rest callers here hcomes hcompiled hfull := by
    obtain ⟨callee, hcompiled⟩ := Option.isSome_iff_exists.mp hcompiled
    refine ⟨call_of_full hcompiled hfull receiver, ?_⟩
    have hrefused : step env (.calling ref receiver rest callers here) =
        .failing (.callDepthExceeded env.settings.callDepth) callers here := by
      show Point.call env ref receiver rest callers here = _
      simp only [Point.call, hcompiled, if_neg (Nat.not_lt.mpr hfull)]
    have hother : Comes env (.failing (.callDepthExceeded env.settings.callDepth) callers here) _ :=
      comes_of_failing _ callers here
    rw [← hrefused] at hother
    exact hends.finished_unique (hcomes.trans (.of_step hother))

/-- Whatever the code and however its routines call each other, running it, calling a
routine and executing a program end within the call depth that is allowed, if no chain
of subranges goes on for ever. -/
theorem endsWith_within_callDepth (env : Environment) (machine : Machine)
    (hframes : machine.frames.size ≤ env.settings.callDepth)
    (htypes : machine.types.ChainsEnd) :
    (∀ body, EndsWith env (.running body [] machine) (run env body machine)) ∧
      (∀ ref receiver, EndsWith env (.calling ref receiver [] [] machine)
        (Outcome.forget (call env ref receiver machine))) ∧
      ∀ program, EndsWith env (.calling program none [] [] machine)
        (execute env program machine) := by
  have hleads (ref : SymbolRef) : env.Leads (endingAllowance env).allows ref := fun _ _ => nofun
  have hcall (ref : SymbolRef) (receiver : Option TypeId) :
      (endingAllowance env).Covered (Outcome.forget (call env ref receiver machine)) := by
    have hcovered : (endingAllowance env).Covered (call env ref receiver machine) :=
      Allowance.covers_call (hleads ref) (fun _ _ => trivial) machine htypes
    cases hdone : call env ref receiver machine <;> rwa [hdone] at hcovered
  refine ⟨fun body => ?_, fun ref receiver => ?_, fun program => ?_⟩
  · exact .of_comes (comes_of_run env body machine) hframes
      (Allowance.covers_run (fun _ _ _ _ => trivial) machine htypes)
  · exact .of_comes (comes_of_call env ref receiver machine) hframes (hcall ref receiver)
  · rw [execute_eq]
    exact .of_comes (comes_of_call env program none machine) hframes (hcall program none)

/-- A recursion without end is stopped when there are three frames. -/
theorem endsWith_within_callDepth_three :
    let env : Environment := { selfCalling with settings := { callDepth := 3 } }
    let machine : Machine := { stack := [.int 1] }
    machine.frames.size ≤ env.settings.callDepth ∧ machine.types.ChainsEnd ∧
      EndsWith env (.calling ⟨⟨0⟩, ⟨0⟩⟩ none [] [] machine)
        (.error (.callDepthExceeded 3) { stack := [.int 9] }) := by
  intro env machine
  have htypes : machine.types.ChainsEnd := TypeStore.Reachable.predefined.grounded.chainsEnd
  have hframes : machine.frames.size ≤ env.settings.callDepth := by decide
  have houtcome : Outcome.forget (call env ⟨⟨0⟩, ⟨0⟩⟩ none machine) =
      .error (.callDepthExceeded 3) { stack := [.int 9] } := by
    decide +kernel
  rw [← houtcome]
  exact ⟨hframes, htypes,
    (endsWith_within_callDepth env machine hframes htypes).2.1 ⟨⟨0⟩, ⟨0⟩⟩ none⟩

/-- A session with a constant of the type that is added next to the predefined ones. -/
def constantOfNext : Environment where
  scopes := ⟨#[{ index := ⟨0⟩
                 symbols := #[{ name := "c", home := ⟨0⟩, type := some ⟨8⟩, defn := .constant }]
                 names := .node .leaf "c" ⟨0⟩ .leaf
                 order := some #[⟨0⟩]
                 ranks := #[some ⟨0⟩] }]⟩
  settings := {}

/-- The predefined types with a subrange of itself. -/
def withSelfSubrange : TypeStore :=
  (TypeStore.predefined.allocate
    { name := none, size := 4, shape := .subrange ⟨8⟩ 0 1 }).2

theorem selfSubrange_baseWithin (steps : Nat) :
    withSelfSubrange.baseWithin steps ⟨8⟩ = .error .endless := by
  induction steps with
  | zero => rfl
  | succ steps ih => exact ih

/-- Fetching a constant whose type is a subrange of itself does not come to an end: the type
behind the subranges is not found, however many of them are followed. Where that type is
not there the same fetch is broken off. -/
theorem selfSubrange_not_endsWith :
    let machine : Machine := { types := withSelfSubrange }
    let body : Body := [.fetch ⟨⟨0⟩, ⟨0⟩⟩]
    machine.frames.size ≤ constantOfNext.settings.callDepth ∧
      (∀ steps, machine.types.baseWithin steps ⟨8⟩ = .error .endless) ∧
      run constantOfNext body machine = .error (.types .endless) machine ∧
      ¬ EndsWith constantOfNext (.running body [] machine)
        (run constantOfNext body machine) ∧
      run constantOfNext body {} = .error (.types (.unknown ⟨8⟩)) {} := by
  intro machine body
  have hrun : run constantOfNext body machine = .error (.types .endless) machine := rfl
  refine ⟨by decide, selfSubrange_baseWithin, hrun, fun hends => ?_, rfl⟩
  exact hends.answered machine hrun

end Machine

end ScopeMachine
