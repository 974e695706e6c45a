/-
# Frames of a run

A run adds frames on top of those that are there and takes them away again. Whatever
is run and however it ends, the frames that are left are for the same scopes as those
before, so there are as many of them, and every variable still lives where it lived.
-/

import ScopeMachine.Proofs.Simulation.Invariant

namespace ScopeMachine

open Machine Outcome

namespace Machine

variable {machine : Machine}

/-- The innermost frame for a scope is a frame for it, and no later one is. -/
theorem innermost_eq_some {frames : Array Frame} {scope : ScopeIndex} {count depth : Nat}
    (hfound : innermost frames scope count = some depth) :
    (frames[depth]?).any (·.scope = some scope) ∧
      ∀ later, depth < later → later < count →
        ¬ (frames[later]?).any (·.scope = some scope) := by
  induction count with
  | zero => cases hfound
  | succ count ih =>
      unfold innermost at hfound
      by_cases hhere : (frames[count]?).any (·.scope = some scope)
      · rw [if_pos hhere] at hfound
        cases hfound
        exact ⟨hhere, fun later hlater hcount => by omega⟩
      · rw [if_neg hhere] at hfound
        obtain ⟨hdepth, hnone⟩ := ih hfound
        refine ⟨hdepth, fun later hlater hcount => ?_⟩
        by_cases hlast : later = count
        · rw [hlast]
          exact hhere
        · exact hnone later hlater (by omega)

/-- The scopes of the frames, the outermost first. -/
def frameScopes (machine : Machine) : List (Option ScopeIndex) :=
  machine.frames.toList.map Frame.scope

@[simp]
theorem length_frameScopes : machine.frameScopes.length = machine.frames.size := by
  simp [frameScopes]

theorem getElem?_frameScopes (depth : Nat) :
    machine.frameScopes[depth]? = (machine.frames[depth]?).map Frame.scope := by
  rw [frameScopes, List.getElem?_map, Array.getElem?_toList]

@[simp]
theorem frameScopes_setSlot (address : VariableAddress) (value : Value) :
    (machine.setSlot address value).frameScopes = machine.frameScopes := by
  obtain ⟨ref, place⟩ := address
  cases place with
  | globals => rfl
  | frame depth =>
      apply List.ext_getElem?
      intro index
      simp only [getElem?_frameScopes, setSlot, Array.getElem?_modify]
      split
      · cases machine.frames[index]? <;> rfl
      · rfl

@[simp]
theorem frameScopes_entering (frame : Frame) :
    (machine.entering frame).frameScopes = machine.frameScopes ++ [frame.scope] := by
  simp [frameScopes, entering]

@[simp]
theorem frameScopes_leaving : machine.leaving.frameScopes = machine.frameScopes.dropLast := by
  simp [frameScopes, leaving]

/-! ## Variables in their places -/

/-- Where a variable lives there is room for its value. -/
def Lives (machine : Machine) (address : VariableAddress) : Prop :=
  ∀ depth, address.place = .frame depth → depth < machine.frames.size

/-- A variable that lives in a frame lives in the innermost one for its scope. -/
theorem innermost_of_place {ref : SymbolRef} {depth : Nat}
    (hplace : (machine.ownAddress ref).place = .frame depth) :
    innermost machine.frames ref.scope machine.frames.size = some depth := by
  simp only [ownAddress, placeOf] at hplace
  cases hfound : innermost machine.frames ref.scope machine.frames.size with
  | none =>
      rw [hfound] at hplace
      cases hplace
  | some found =>
      rw [hfound] at hplace
      cases hplace
      rfl

theorem lives_ownAddress (machine : Machine) (ref : SymbolRef) :
    machine.Lives (machine.ownAddress ref) := by
  intro depth hplace
  have hframe := (innermost_eq_some (innermost_of_place hplace)).1
  by_contra hbeyond
  rw [Array.getElem?_eq_none (Nat.le_of_not_lt hbeyond)] at hframe
  cases hframe

/-- Where a variable lives is a matter of the scopes of the frames alone. -/
theorem ownAddress_of_frameScopes {later : Machine}
    (hscopes : later.frameScopes = machine.frameScopes) (ref : SymbolRef) :
    later.ownAddress ref = machine.ownAddress ref := by
  have hany (count : Nat) : (later.frames[count]?).any (·.scope = some ref.scope) =
      (machine.frames[count]?).any (·.scope = some ref.scope) := by
    have hcount : (later.frames[count]?).map Frame.scope =
        (machine.frames[count]?).map Frame.scope := by
      rw [← getElem?_frameScopes, hscopes, getElem?_frameScopes]
    have hmapped := congrArg (Option.any (fun scope => decide (scope = some ref.scope))) hcount
    simpa only [Option.any_map] using hmapped
  have hinnermost (count : Nat) :
      innermost later.frames ref.scope count = innermost machine.frames ref.scope count := by
    induction count with
    | zero => rfl
    | succ count ih => rw [innermost, innermost, hany, ih]
  have hsize : later.frames.size = machine.frames.size := by
    rw [← length_frameScopes, hscopes, length_frameScopes]
  rw [ownAddress, ownAddress, placeOf, placeOf, hsize, hinnermost]

/-- A variable lives in the innermost frame if that is for its scope. -/
theorem ownAddress_of_last {ref : SymbolRef}
    (hlast : machine.frameScopes.getLast? = some (some ref.scope)) :
    machine.ownAddress ref = ⟨ref, .frame (machine.frames.size - 1)⟩ := by
  rw [List.getLast?_eq_getElem?, length_frameScopes, getElem?_frameScopes,
    Option.map_eq_some_iff] at hlast
  obtain ⟨frame, hframe, hscope⟩ := hlast
  have hless := (Array.getElem?_eq_some_iff.mp hframe).1
  have hsize : machine.frames.size = machine.frames.size - 1 + 1 := by omega
  have hinnermost : innermost machine.frames ref.scope (machine.frames.size - 1 + 1) =
      some (machine.frames.size - 1) := by
    rw [innermost, hframe]
    simp [hscope]
  rw [ownAddress, placeOf, hsize, hinnermost, ← hsize]

theorem slot?_frame (symbol : SymbolRef) (depth : Nat) :
    machine.slot? ⟨symbol, .frame depth⟩ =
      (machine.frames[depth]?).bind (·.locals.get? symbol) := by
  simp only [slot?]
  cases machine.frames[depth]? <;> rfl

theorem slot?_setSlot_self {address : VariableAddress} (hlives : machine.Lives address)
    (value : Value) : (machine.setSlot address value).slot? address = some value := by
  obtain ⟨symbol, place⟩ := address
  cases place with
  | globals => exact Slots.get?_set_self _ _ _
  | frame depth =>
      have hless : depth < machine.frames.size := hlives depth rfl
      simp only [slot?_frame, setSlot, Array.getElem?_modify, if_true,
        Array.getElem?_eq_getElem hless, Option.map_some, Option.bind_some, Slots.get?_set_self]

/-- In a frame that is gone nothing is held, and nothing can be put there. -/
theorem slot?_of_not_lives {address : VariableAddress} (hgone : ¬ machine.Lives address) :
    machine.slot? address = none ∧ ∀ value, machine.setSlot address value = machine := by
  obtain ⟨symbol, place⟩ := address
  cases place with
  | globals => exact absurd nofun hgone
  | frame depth =>
      have hbeyond : machine.frames.size ≤ depth := by
        by_contra hless
        refine hgone ?_
        rintro _ ⟨⟩
        exact Nat.lt_of_not_le hless
      constructor
      · rw [slot?_frame, Array.getElem?_eq_none hbeyond]
        rfl
      · intro value
        have hframes (change : Frame → Frame) : machine.frames.modify depth change =
            machine.frames := by
          apply Array.ext_getElem?
          intro index
          rw [Array.getElem?_modify]
          split
          case isTrue hsame =>
            rw [← hsame, Array.getElem?_eq_none hbeyond]
            rfl
          case isFalse => rfl
        simp only [setSlot, hframes]

theorem slot?_setSlot_of_ne {address other : VariableAddress} (hother : other ≠ address)
    (value : Value) : (machine.setSlot address value).slot? other = machine.slot? other := by
  obtain ⟨symbol, place⟩ := address
  obtain ⟨wanted, elsewhere⟩ := other
  have hsymbol (hplace : elsewhere = place) : wanted ≠ symbol := by
    rintro rfl
    exact hother (by rw [hplace])
  cases place with
  | globals =>
      cases elsewhere with
      | globals => exact Slots.get?_set_of_ne _ _ (hsymbol rfl)
      | frame depth => rfl
  | frame depth =>
      cases elsewhere with
      | globals => rfl
      | frame deep =>
          simp only [slot?_frame, setSlot, Array.getElem?_modify]
          by_cases hsame : depth = deep
          · subst hsame
            have hne := hsymbol rfl
            cases machine.frames[depth]? <;> simp [Slots.get?_set_of_ne _ _ hne]
          · rw [if_neg hsame]

end Machine

/-! ## What a run keeps of the frames -/

/-- The scopes of the frames are an invariant of runs. -/
def frameInvariant (env : Environment) : Invariant (List (Option ScopeIndex)) env where
  holds scopes machine := machine.frameScopes = scopes
  allowed _ := True
  inner scopes scope := scopes ++ [scope]
  stack _ _ _ _ _ := trivial
  own _ _ := trivial
  slot _ _ _ _ _ := trivial
  withStack hscopes _ _ := hscopes
  setSlot hscopes _ _ := by rw [frameScopes_setSlot, hscopes]
  withLine hscopes _ := hscopes
  withType hscopes _ _ := hscopes
  withChannels hscopes _ := hscopes
  emit hscopes _ := hscopes
  enter hscopes _ _ _ _ := by rw [frameScopes_entering, hscopes]
  leave _ hinside := by rw [frameScopes_leaving, hinside, List.dropLast_concat]

namespace Machine

variable (env : Environment) (room : Nat) (machine : Machine)

/-- A piece that needs no types can be announced. -/
theorem exists_announce (hook : Hook) (piece : Piece) :
    ∃ here, announce env hook (fun _ => .ok piece) machine = .ok () here ∧
      here.frames = machine.frames := by
  unfold announce
  split
  · exact ⟨machine.emit piece, rfl, rfl⟩
  · exact ⟨machine, rfl, rfl⟩

theorem frames_popOperands (taker : String) (count : Nat) :
    (Outcome.machine (popOperands taker count machine)).frames = machine.frames := by
  simp only [popOperands]
  split <;> rfl

theorem frameScopes_perform (op : Op) :
    (Outcome.machine (perform env (nestedIn env room) op machine)).frameScopes =
      machine.frameScopes :=
  (frameInvariant env).instruction rfl room op

theorem frameScopes_callSymbol (ref : SymbolRef) (receiver : Option TypeId) :
    (Outcome.machine (callSymbol env (nestedIn env room) ref receiver machine)).frameScopes =
      machine.frameScopes :=
  (frameInvariant env).callSymbol rfl room ref receiver

theorem size_perform (op : Op) :
    (Outcome.machine (perform env (nestedIn env room) op machine)).frames.size =
      machine.frames.size := by
  rw [← length_frameScopes, frameScopes_perform, length_frameScopes]

theorem size_callSymbol (ref : SymbolRef) (receiver : Option TypeId) :
    (Outcome.machine (callSymbol env (nestedIn env room) ref receiver machine)).frames.size =
      machine.frames.size := by
  rw [← length_frameScopes, frameScopes_callSymbol, length_frameScopes]

end Machine

end ScopeMachine
