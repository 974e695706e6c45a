/-
# Machines with renamed variables

Renaming the references in values, variables and enumerations turns a machine into
one that works on the same variables under other references. The variables of a
machine are compared by what they hold, since their order says nothing. Under an
injective renaming that keeps scopes, every elementary change of a machine has its
counterpart in the renamed machine.
-/

import Mathlib.Data.List.Forall2
import ScopeMachine.Machine.Variables
import ScopeMachine.Proofs.Types.Renaming

namespace ScopeMachine

/-- An address with its variable renamed. -/
def VariableAddress.rename (names : SymbolRef → SymbolRef) (address : VariableAddress) :
    VariableAddress :=
  { address with symbol := names address.symbol }

/-- A value with the variable renamed, if it is an address. -/
def Value.rename (names : SymbolRef → SymbolRef) : Value → Value
  | .address target => .address (target.rename names)
  | value => value

/-- A routine with its parameters and locals renamed. -/
def Routine.rename (names : SymbolRef → SymbolRef) (routine : Routine) : Routine :=
  { routine with
    parameters := routine.parameters.map names
    locals := routine.locals.map names }

/-- A definition with the parameters and locals of a routine renamed. -/
def Definition.rename (names : SymbolRef → SymbolRef) (defn : Definition) : Definition :=
  defn.mapRoutine (Routine.rename names)

/-- The same variables under other references hold the same values. -/
def Slots.Renamed (names : SymbolRef → SymbolRef) (slots renamed : Slots) : Prop :=
  ∀ ref, renamed.get? (names ref) = (slots.get? ref).map (Value.rename names)

/-- Frames for the same scope with the same variables. -/
structure Frame.Renamed (names : SymbolRef → SymbolRef) (frame renamed : Frame) : Prop where
  scope : renamed.scope = frame.scope
  locals : Slots.Renamed names frame.locals renamed.locals

/-- The same machine under other references. -/
structure Machine.Renamed (names : SymbolRef → SymbolRef) (machine renamed : Machine) : Prop where
  stack : renamed.stack = machine.stack.map (Value.rename names)
  globals : Slots.Renamed names machine.globals renamed.globals
  depth : renamed.frames.size = machine.frames.size
  frames : ∀ (depth : Nat) (frame frame' : Frame), machine.frames[depth]? = some frame →
    renamed.frames[depth]? = some frame' → Frame.Renamed names frame frame'
  channels : renamed.channels = machine.channels
  types : renamed.types = machine.types.rename names
  line : renamed.line = machine.line

variable {names : SymbolRef → SymbolRef}

namespace Value

@[simp]
theorem kind_rename (value : Value) : (value.rename names).kind = value.kind := by
  cases value <;> rfl

@[simp]
theorem ordinal?_rename (value : Value) : (value.rename names).ordinal? = value.ordinal? := by
  cases value <;> rfl

@[simp]
theorem integerText_rename (value : Value) :
    (value.rename names).integerText = value.integerText := by
  simp [integerText]

/-! ## Texts of renamed values -/

section Texts

variable {first second : ScopeStore}
  (hconstants : ∀ ref, ((second.symbol (names ref)).map Symbol.name).toOption =
    ((first.symbol ref).map Symbol.name).toOption)

include hconstants

/-- Constants that are renamed have the same names. -/
theorem constantName?_rename (value : Value) (constants : List SymbolRef) :
    (value.rename names).constantName? (constants.map names) second =
      value.constantName? constants first := by
  have hname (store : ScopeStore) (ref : SymbolRef) :
      (do let symbol ← (store.symbol ref).toOption; return symbol.name) =
        ((store.symbol ref).map Symbol.name).toOption := by
    cases store.symbol ref <;> rfl
  simp only [constantName?, ordinal?_rename, List.getElem?_map, hname]
  cases value.ordinal? with
  | none => rfl
  | some ordinal =>
      simp only [Option.bind_eq_bind, Option.bind_some]
      split
      · rfl
      · cases constants[ordinal.toInt.toNat]? with
        | none => rfl
        | some constant => exact hconstants constant

theorem ordinalText_rename (value : Value) (type : TypeId) (types : TypeStore) :
    (value.rename names).ordinalText type (types.rename names) second =
      value.ordinalText type types first := by
  simp only [ordinalText, TypeStore.base_rename, TypeStore.shape_rename]
  cases types.base type with
  | error e => rfl
  | ok base =>
      simp only [bind, Except.bind]
      cases types.shape base with
      | error e => rfl
      | ok shape =>
          cases shape with
          | enumeration constants =>
              simp only [Except.map, TypeShape.rename, constantName?_rename hconstants,
                integerText_rename]
          | _ => simp [Except.map, TypeShape.rename]

/-- A renamed value has the same text. -/
theorem render_rename (value : Value) (type : TypeId) (types : TypeStore) :
    (value.rename names).render type (types.rename names) second =
      value.render type types first := by
  have hordinal := ordinalText_rename hconstants value type types
  unfold render
  rw [TypeStore.shape_rename, hordinal]
  cases types.shape type with
  | error e => rfl
  | ok shape =>
      -- Neither a form nor an address shows which variables it refers to.
      cases value <;> cases shape <;> rfl

end Texts

end Value

/-! ## Renamed variables -/

namespace Slots.Renamed

variable {slots renamed : Slots}

theorem empty : Slots.Renamed names {} {} := fun _ => rfl

theorem set (hslots : Slots.Renamed names slots renamed) (hnames : Function.Injective names)
    (ref : SymbolRef) (value : Value) :
    Slots.Renamed names (slots.set ref value) (renamed.set (names ref) (value.rename names)) := by
  intro other
  by_cases hother : other = ref
  · subst hother
    rw [get?_set_self, get?_set_self]
    rfl
  · rw [get?_set_of_ne _ _ hother, get?_set_of_ne _ _ (hnames.ne hother)]
    exact hslots other

theorem bind (hnames : Function.Injective names) (parameters : List SymbolRef)
    (arguments : List Value) :
    Slots.Renamed names (Slots.bind parameters arguments)
      (Slots.bind (parameters.map names) (arguments.map (Value.rename names))) := by
  unfold Slots.bind
  rw [List.zip_map]
  induction parameters.zip arguments with
  | nil => exact .empty
  | cons bound others ih => exact ih.set hnames bound.1 bound.2

end Slots.Renamed

/-! ## Renamed machines -/

namespace Machine.Renamed

variable {machine renamed : Machine} (hmachine : Machine.Renamed names machine renamed)
include hmachine

theorem frame?_eq (depth : Nat) :
    (renamed.frames[depth]?).map Frame.scope = (machine.frames[depth]?).map Frame.scope := by
  have hdepth := hmachine.depth
  cases hframe : machine.frames[depth]? with
  | none =>
      rw [Array.getElem?_eq_none_iff] at hframe
      rw [Array.getElem?_eq_none_iff.mpr (by omega)]
  | some frame =>
      have hless := (Array.getElem?_eq_some_iff.mp hframe).1
      have hless' : depth < renamed.frames.size := by omega
      have hframe' : renamed.frames[depth]? = some renamed.frames[depth] :=
        Array.getElem?_eq_getElem hless'
      rw [hframe']
      exact congrArg some (hmachine.frames depth _ _ hframe hframe').scope

/-- Renaming keeps the place of a variable. -/
theorem placeOf_eq (hscopes : ∀ ref, (names ref).scope = ref.scope) (ref : SymbolRef) :
    renamed.placeOf (names ref) = machine.placeOf ref := by
  have hinnermost (count : Nat) : innermost renamed.frames ref.scope count =
      innermost machine.frames ref.scope count := by
    induction count with
    | zero => rfl
    | succ count ih =>
        have hscope := hmachine.frame?_eq count
        have hany (frames : Array Frame) : (frames[count]?).any (·.scope = some ref.scope) =
            ((frames[count]?).map Frame.scope).any (· = some ref.scope) := by
          cases frames[count]? <;> rfl
        rw [innermost, innermost, hany, hany, hscope, ih]
  rw [placeOf, placeOf, hscopes, hmachine.depth, hinnermost]

theorem ownAddress_eq (hscopes : ∀ ref, (names ref).scope = ref.scope) (ref : SymbolRef) :
    renamed.ownAddress (names ref) = (machine.ownAddress ref).rename names := by
  rw [ownAddress, hmachine.placeOf_eq hscopes]
  rfl

theorem slot?_eq (address : VariableAddress) :
    renamed.slot? (address.rename names) = (machine.slot? address).map (Value.rename names) := by
  obtain ⟨ref, place⟩ := address
  cases place with
  | globals => exact hmachine.globals ref
  | frame depth =>
      have hscope := hmachine.frame?_eq depth
      simp only [slot?, VariableAddress.rename]
      cases hframe : machine.frames[depth]? <;> cases hframe' : renamed.frames[depth]? <;>
        simp only [hframe, hframe', Option.map_none, Option.map_some, reduceCtorEq] at hscope
      · rfl
      · exact (hmachine.frames depth _ _ hframe hframe').locals ref

theorem setSlot (hnames : Function.Injective names) (address : VariableAddress)
    (value : Value) :
    Machine.Renamed names (machine.setSlot address value)
      (renamed.setSlot (address.rename names) (value.rename names)) := by
  obtain ⟨ref, place⟩ := address
  cases place with
  | globals => exact { hmachine with globals := hmachine.globals.set hnames ref value }
  | frame depth =>
      refine { hmachine with depth := ?_, frames := ?_ }
      · simpa [Machine.setSlot, VariableAddress.rename] using hmachine.depth
      · intro other frame frame' hframe hframe'
        simp only [Machine.setSlot, VariableAddress.rename, Array.getElem?_modify] at hframe hframe'
        split at hframe
        · rename_i hother
          subst hother
          rw [if_pos rfl] at hframe'
          obtain ⟨old, hold, rfl⟩ := Option.map_eq_some_iff.mp hframe
          obtain ⟨old', hold', rfl⟩ := Option.map_eq_some_iff.mp hframe'
          have hframes := hmachine.frames depth old old' hold hold'
          exact ⟨hframes.scope, hframes.locals.set hnames ref value⟩
        · rename_i hother
          rw [if_neg hother] at hframe'
          exact hmachine.frames other frame frame' hframe hframe'

theorem entering {frame frame' : Frame} (hframe : Frame.Renamed names frame frame') :
    Machine.Renamed names { machine with frames := machine.frames.push frame }
      { renamed with frames := renamed.frames.push frame' } := by
  have hdepth := hmachine.depth
  refine { hmachine with depth := ?_, frames := ?_ }
  · simpa using hdepth
  · intro depth found found' hfound hfound'
    simp only [Array.getElem?_push, hdepth] at hfound hfound'
    split at hfound
    · rename_i hlast
      rw [if_pos hlast] at hfound'
      cases hfound
      cases hfound'
      exact hframe
    · rename_i hlast
      rw [if_neg hlast] at hfound'
      exact hmachine.frames depth found found' hfound hfound'

theorem leaving :
    Machine.Renamed names { machine with frames := machine.frames.pop }
      { renamed with frames := renamed.frames.pop } := by
  have hdepth := hmachine.depth
  refine { hmachine with depth := ?_, frames := ?_ }
  · simp [hdepth]
  · intro depth found found' hfound hfound'
    simp only [Array.getElem?_pop, hdepth] at hfound hfound'
    split at hfound
    · rename_i hlast
      rw [if_pos hlast] at hfound'
      exact hmachine.frames depth found found' hfound hfound'
    · cases hfound

theorem emit (piece : Piece) : Machine.Renamed names (machine.emit piece) (renamed.emit piece) :=
  { hmachine with
    channels := by
      rw [Machine.emit, Machine.emit, hmachine.channels] }

end Machine.Renamed

end ScopeMachine
