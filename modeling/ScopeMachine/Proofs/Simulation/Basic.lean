/-
# Simulations between machines

A simulation relates machines that run the same code in two environments. It
says which machines, references and addresses correspond, and that the elementary
changes of a machine keep machines in correspondence: replacing the stack,
setting a variable, entering and leaving a frame, adding a type, writing, and so
on. From these few closure properties follows that whole runs agree, which the
other modules of this folder show once and for all.

Machines in different activations may have to be compared differently, so the
relation between machines depends on a view, and entering a frame changes the
view. With both environments the same and the relation inside equality, a
simulation is an invariant of runs.
-/

import Mathlib.Data.List.Forall2
import ScopeMachine.Proofs.Agreement
import ScopeMachine.Proofs.Channels
import ScopeMachine.Proofs.Reach
import ScopeMachine.Proofs.Types.Renaming

namespace ScopeMachine

/-- Values that correspond: equal values, or addresses that correspond. -/
inductive Value.Corresponds (addresses : VariableAddress → VariableAddress → Prop) :
    Value → Value → Prop
  /-- A value other than an address corresponds to itself. -/
  | plain {value : Value} (hplain : ∀ target, value ≠ .address target) :
      Value.Corresponds addresses value value
  /-- Addresses correspond as variables do. -/
  | address {first second : VariableAddress} (htargets : addresses first second) :
      Value.Corresponds addresses (.address first) (.address second)

/-- Where addresses correspond only to themselves, so do values. -/
@[simp]
theorem Value.corresponds_eq : Value.Corresponds Eq = Eq := by
  funext first second
  apply propext
  constructor
  · intro hvalues
    cases hvalues with
    | plain => rfl
    | address htargets => exact congrArg Value.address htargets
  · rintro rfl
    cases first with
    | address target => exact .address rfl
    | _ => exact .plain (by simp)

/-- What two variables hold corresponds, if anything. -/
def Value.CorrespondsIfAny (addresses : VariableAddress → VariableAddress → Prop) :
    Option Value → Option Value → Prop :=
  Option.Rel (Value.Corresponds addresses)

theorem Value.CorrespondsIfAny.refl (held : Option Value) :
    Value.CorrespondsIfAny Eq held held := by
  rw [CorrespondsIfAny, corresponds_eq]
  cases held with
  | none => exact .none
  | some value => exact .some rfl

/-- Routines with the same code and scope and with parameters that correspond. -/
structure Routine.Corresponds (refs : SymbolRef → SymbolRef → Prop) (first second : Routine) :
    Prop where
  code : first.code = second.code
  scope : first.scope = second.scope
  parameters : List.Forall₂ refs first.parameters second.parameters

/-- Definitions that correspond: the same kind of routine, or the same without one. -/
inductive Definition.Corresponds (refs : SymbolRef → SymbolRef → Prop) :
    Definition → Definition → Prop
  | routine (kind : RoutineKind) {first second : Routine}
      (hroutines : Routine.Corresponds refs first second) :
      Definition.Corresponds refs (.routine kind first) (.routine kind second)
  | other {defn : Definition} (hnone : defn.routine? = none) :
      Definition.Corresponds refs defn defn

theorem Definition.Corresponds.of_routine {refs : SymbolRef → SymbolRef → Prop}
    {kind : RoutineKind} {first : Routine} {defn : Definition}
    (hdefns : Definition.Corresponds refs (.routine kind first) defn) :
    ∃ second, defn = .routine kind second ∧ Routine.Corresponds refs first second := by
  cases hdefns with
  | routine kind hroutines => exact ⟨_, rfl, hroutines⟩
  | other hnone => cases hnone

theorem Definition.Corresponds.of_none {refs : SymbolRef → SymbolRef → Prop}
    {first second : Definition} (hdefns : Definition.Corresponds refs first second)
    (hnone : first.routine? = none) : second = first := by
  cases hdefns with
  | routine kind hroutines => cases hnone
  | other hnone => rfl

/-- Symbols that are declared alike, but for the references to other symbols. -/
structure Symbol.Corresponds (refs : SymbolRef → SymbolRef → Prop) (first second : Symbol) :
    Prop where
  name : first.name = second.name
  type : first.type = second.type
  value : first.value = second.value
  defn : Definition.Corresponds refs first.defn second.defn

/-- The description of an array of characters, as results of varying length have it. -/
def TypeInfo.characters (size count : Nat) : TypeInfo :=
  { name := none, size := min (size * count) TypeStore.sizeLimit,
    shape := .array ⟨.char, count, count⟩ }

/-- A symbol corresponds to itself if references do. -/
theorem Symbol.Corresponds.refl (symbol : Symbol) : Symbol.Corresponds Eq symbol symbol := by
  refine ⟨rfl, rfl, rfl, ?_⟩
  cases hdefn : symbol.defn with
  | routine kind details => exact .routine kind ⟨rfl, rfl, List.forall₂_eq_eq_eq ▸ rfl⟩
  | _ => exact .other rfl

/-- What makes runs in two environments agree. -/
structure Simulation (View : Type) (first second : Environment) where
  -- What corresponds, how constants are renamed, and how frames change the view.
  machines : View → Machine → Machine → Prop
  refs : SymbolRef → SymbolRef → Prop
  addresses : VariableAddress → VariableAddress → Prop
  constants : SymbolRef → SymbolRef
  inner : View → Option ScopeIndex → View
  -- Values that a run may convert to texts.
  shows : Value → Prop
  -- The sessions, with symbols behind references and references behind addresses.
  callDepth : first.settings.callDepth = second.settings.callDepth
  resolve : ∀ addr, Alike refs (first.scopes.resolve addr) (second.scopes.resolve addr)
  symbol : ∀ {r s}, refs r s →
    Alike (Symbol.Corresponds refs) (first.scopes.symbol r) (second.scopes.symbol s)
  -- The number of frames, the stack and the current line.
  depth : ∀ {view m n}, machines view m n → m.frames.size = n.frames.size
  stack : ∀ {view m n}, machines view m n →
    List.Forall₂ (Value.Corresponds addresses) m.stack n.stack
  withStack : ∀ {view m n stack stack'}, machines view m n →
    List.Forall₂ (Value.Corresponds addresses) stack stack' →
    machines view { m with stack } { n with stack := stack' }
  withLine : ∀ {view m n} (line : Nat), machines view m n →
    machines view { m with line } { n with line }
  -- Announcements, of routines and statements and of the values of variables.
  announce : ∀ {view m n hook piece}, machines view m n → piece.hook? = some hook →
    Outcome.Agree (machines view) Eq (Machine.announce first hook (fun _ => .ok piece) m)
      (Machine.announce second hook (fun _ => .ok piece) n)
  fetched : ∀ {view m n r s x y v w}, machines view m n → first.scopes.symbol r = .ok x →
    second.scopes.symbol s = .ok y → refs r s → Value.Corresponds addresses v w →
    Outcome.Agree (machines view) Eq
      (Machine.announce first .fetch (fun types => x.fetchPiece v types first.scopes) m)
      (Machine.announce second .fetch (fun types => y.fetchPiece w types second.scopes) n)
  stored : ∀ {view m n r s x y v w}, machines view m n → first.scopes.symbol r = .ok x →
    second.scopes.symbol s = .ok y → refs r s → Value.Corresponds addresses v w →
    Outcome.Agree (machines view) Eq
      (Machine.announce first .store (fun types => x.storePiece v types first.scopes) m)
      (Machine.announce second .store (fun types => y.storePiece w types second.scopes) n)
  -- Variables and where they live.
  own : ∀ {view m n r s}, machines view m n → refs r s →
    addresses (m.ownAddress r) (n.ownAddress s)
  slot : ∀ {view m n a b}, machines view m n → addresses a b →
    Value.CorrespondsIfAny addresses (m.slot? a) (n.slot? b)
  setSlot : ∀ {view m n a b v w}, machines view m n → addresses a b →
    Value.Corresponds addresses v w → machines view (m.setSlot a v) (n.setSlot b w)
  -- Frames, entered with parameters bound.
  enter : ∀ {view m n scope rs ss vs ws}, machines view m n → List.Forall₂ refs rs ss →
    List.Forall₂ (Value.Corresponds addresses) vs ws →
    machines (inner view scope) (m.entering { scope, locals := Slots.bind rs vs })
      (n.entering { scope, locals := Slots.bind ss ws })
  leave : ∀ {view m n m' n' scope}, machines view m n → machines (inner view scope) m' n' →
    machines view m'.leaving n'.leaving
  -- Types, streams and files, and what the program writes.
  types : ∀ {view m n}, machines view m n → n.types = m.types.rename constants
  withType : ∀ {view m n} (size count : Nat), machines view m n →
    machines view { m with types := (m.types.allocate (.characters size count)).2 }
      { n with types := (n.types.allocate (.characters size count)).2 }
  channels : ∀ {view m n}, machines view m n →
    n.channels = m.channels.withSink n.channels.sink
  withChannels : ∀ {view m n} (channels : Channels), machines view m n →
    machines view { m with channels := channels.withSink m.channels.sink }
      { n with channels := channels.withSink n.channels.sink }
  written : ∀ {view m n} (text : String), machines view m n →
    machines view (m.emit (.written text)) (n.emit (.written text))
  -- Texts of values that may be converted, wherever arrays stand that are shown.
  text : ∀ {v w}, Value.Corresponds addresses v w → shows v →
    ∀ code id, v.scalarText code (first.places id) = w.scalarText code (second.places id)

end ScopeMachine
