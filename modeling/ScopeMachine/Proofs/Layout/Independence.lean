/-
# Independence of the layout

Compiled code holds addresses, and flattening ranks symbols by their names. So it
makes no difference to a run in which order the names of a program were entered,
although that order decides how symbols are numbered and every reference in a
machine holds such a number. Two sessions that are the same but for the order of
entry run any code alike, with every reference replaced by its counterpart.

The text of an address shows the number of a symbol, and the text of an array shows
where the array stands in memory, which two runs need not have in common. So a run
must not convert an address or an array to a text, unless as a truth value; nothing
else that a program can do tells the two sessions apart.
-/

import ScopeMachine.Proofs.Layout.Counterpart
import ScopeMachine.Proofs.Layout.Renaming
import ScopeMachine.Proofs.Simulation.Run

namespace ScopeMachine

open Machine Outcome

/-- The same scopes, names and symbols, but that the symbols of a scope may be
numbered differently. -/
structure ScopeStore.Rearranged (first second : ScopeStore) : Prop where
  names : SameNames first second
  symbols : ∀ ref symbol other, first.symbol ref = .ok symbol →
    second.symbol (counterpart first second ref) = .ok other →
    other.type = symbol.type ∧ other.value = symbol.value ∧
      other.defn = symbol.defn.rename (counterpart first second)

/-- Sessions that are flattened and the same but for the numbering of symbols. Arrays may
stand in the same places or in others. -/
structure Environment.Rearranged (first second : Environment) : Prop where
  reachable : first.scopes.Reachable
  reachable' : second.scopes.Reachable
  flattened : first.scopes.Flattened
  flattened' : second.scopes.Flattened
  scopes : first.scopes.Rearranged second.scopes
  settings : second.settings = first.settings

/-- How references are renamed between two sessions. -/
abbrev Environment.counterpart (first second : Environment) : SymbolRef → SymbolRef :=
  ScopeStore.counterpart first.scopes second.scopes

/-- The same task under other references. -/
def Machine.Task.rename (names : SymbolRef → SymbolRef) : Task → Task
  | .body code => .body code
  | .routine ref receiver => .routine (names ref) receiver

/-! ## Renaming as a correspondence -/

section Correspondence

variable {names : SymbolRef → SymbolRef}

theorem forall₂_map_eq {α β : Type} {f : α → β} {first : List α} {second : List β} :
    List.Forall₂ (fun a b => f a = b) first second ↔ first.map f = second := by
  rw [← List.forall₂_map_left_iff (R := Eq), List.forall₂_eq_eq_eq]

theorem Value.corresponds_rename :
    Value.Corresponds (fun first second => first.rename names = second) =
      fun first second => first.rename names = second := by
  funext first second
  apply propext
  constructor
  · intro hvalues
    cases hvalues with
    | plain hplain =>
        cases first with
        | address target => exact absurd rfl (hplain target)
        | _ => rfl
    | address htargets => exact congrArg Value.address htargets
  · rintro rfl
    cases first with
    | address target => exact .address rfl
    | _ => exact .plain (by simp)

theorem Definition.corresponds_rename (defn : Definition) :
    Definition.Corresponds (fun first second => names first = second) defn
      (defn.rename names) := by
  cases defn with
  | routine kind details => exact .routine kind ⟨rfl, rfl, forall₂_map_eq.mpr rfl⟩
  | _ => exact .other rfl

end Correspondence

namespace Environment.Rearranged

variable {first second : Environment} (hsessions : first.Rearranged second)
include hsessions

theorem symbol_alike (ref : SymbolRef) :
    Alike (Symbol.Corresponds fun r s => first.counterpart second r = s)
      (first.scopes.symbol ref) (second.scopes.symbol (first.counterpart second ref)) := by
  have hfirst := hsessions.reachable.wellFormed
  have hsecond := hsessions.reachable'.wellFormed
  cases hsymbol : first.scopes.symbol ref with
  | error e =>
      have hself : first.counterpart second ref = ref := ScopeStore.counterpart_of_error hsymbol
      rw [hself, hsessions.scopes.names.symbol_eq_error hfirst hsecond hsymbol]
      exact rfl
  | ok symbol =>
      obtain ⟨other, hother, hname⟩ :=
        hsessions.scopes.names.symbol_counterpart hfirst hsecond hsymbol
      obtain ⟨htype, hvalue, hdefn⟩ := hsessions.scopes.symbols ref symbol other hsymbol hother
      rw [hother]
      exact ⟨hname.symm, htype.symm, hvalue.symm, hdefn ▸ Definition.corresponds_rename _⟩

theorem constant_name (ref : SymbolRef) :
    ((second.scopes.symbol (first.counterpart second ref)).map Symbol.name).toOption =
      ((first.scopes.symbol ref).map Symbol.name).toOption := by
  have halike := hsessions.symbol_alike ref
  cases hx : first.scopes.symbol ref <;>
    cases hy : second.scopes.symbol (first.counterpart second ref) <;> rw [hx, hy] at halike
  · rfl
  · exact halike.elim
  · exact halike.elim
  · exact congrArg some halike.name.symm

/-- Variables are announced alike. -/
theorem piece_eq {x y : Symbol}
    (hsymbols : Symbol.Corresponds (fun r s => first.counterpart second r = s) x y)
    (value : Value) (types : TypeStore) (make : String → Option String → Piece) :
    (do
      let subject ← y.subject (types.rename (first.counterpart second))
      let text ← (value.rename (first.counterpart second)).render y.shownType
        (types.rename (first.counterpart second)) second.scopes
      return make subject text) =
    (do
      let subject ← x.subject types
      let text ← value.render x.shownType types first.scopes
      return make subject text) := by
  have hshown : y.shownType = x.shownType := by
    rw [Symbol.shownType, Symbol.shownType, hsymbols.type]
  have hsubject : y.subject (types.rename (first.counterpart second)) = x.subject types := by
    unfold Symbol.subject
    rw [hshown, TypeStore.shape_rename, ← hsymbols.name]
    cases types.shape x.shownType with
    | error e => rfl
    | ok shape => cases shape <;> rfl
  rw [hsubject, hshown, Value.render_rename hsessions.constant_name]

theorem announce_agree {machine renamed : Machine}
    (hmachine : Machine.Renamed (first.counterpart second) machine renamed) (hook : Hook)
    {piece piece' : TypeStore → Except TypeRefusal Piece}
    (hpiece : piece' renamed.types = piece machine.types) :
    Agree (Machine.Renamed (first.counterpart second)) Eq
      (Machine.announce first hook piece machine)
      (Machine.announce second hook piece' renamed) := by
  unfold Machine.announce
  rw [hsessions.settings, hpiece]
  split
  · cases piece machine.types with
    | error e => exact ⟨rfl, hmachine⟩
    | ok made => exact ⟨rfl, hmachine.emit made⟩
  · exact ⟨rfl, hmachine⟩

end Environment.Rearranged

/-- A run in one session simulates the run in the other. -/
def layoutSimulation {first second : Environment} (hsessions : first.Rearranged second) :
    Simulation Unit first second where
  machines _ := Machine.Renamed (first.counterpart second)
  refs r s := first.counterpart second r = s
  addresses a b := a.rename (first.counterpart second) = b
  constants := first.counterpart second
  inner _ _ := ()
  shows value := (∀ target, value ≠ .address target) ∧ ∀ bytes, value ≠ .buffer bytes
  callDepth := by rw [hsessions.settings]
  resolve addr := by
    rw [hsessions.scopes.names.resolve_counterpart hsessions.reachable.wellFormed
      hsessions.reachable'.wellFormed hsessions.flattened hsessions.flattened']
    cases first.scopes.resolve addr <;> exact rfl
  symbol := by
    rintro r _ rfl
    exact hsessions.symbol_alike r
  depth hmachine := hmachine.depth.symm
  stack hmachine := by
    rw [Value.corresponds_rename]
    exact forall₂_map_eq.mpr hmachine.stack.symm
  withStack hmachine hstacks := by
    rw [Value.corresponds_rename] at hstacks
    exact { hmachine with stack := (forall₂_map_eq.mp hstacks).symm }
  withLine line hmachine := { hmachine with line := rfl }
  announce hmachine hhook := hsessions.announce_agree hmachine _ rfl
  fetched := by
    intro view machine renamed r s x y v w hmachine hx hy hrefs hvalues
    rw [Value.corresponds_rename] at hvalues
    subst hrefs hvalues
    have hsymbols := hsessions.symbol_alike r
    rw [hx, hy] at hsymbols
    apply hsessions.announce_agree hmachine
    rw [hmachine.types]
    exact hsessions.piece_eq hsymbols v machine.types .fetched
  stored := by
    intro view machine renamed r s x y v w hmachine hx hy hrefs hvalues
    rw [Value.corresponds_rename] at hvalues
    subst hrefs hvalues
    have hsymbols := hsessions.symbol_alike r
    rw [hx, hy] at hsymbols
    apply hsessions.announce_agree hmachine
    rw [hmachine.types]
    exact hsessions.piece_eq hsymbols v machine.types .stored
  own := by
    rintro view machine renamed r _ hmachine rfl
    exact (hmachine.ownAddress_eq (fun _ => ScopeStore.scope_counterpart) r).symm
  slot := by
    rintro view machine renamed a _ hmachine rfl
    rw [hmachine.slot?_eq, Value.CorrespondsIfAny, Value.corresponds_rename]
    cases machine.slot? a with
    | none => exact .none
    | some value => exact .some rfl
  setSlot := by
    intro view machine renamed a b v w hmachine haddresses hvalues
    rw [Value.corresponds_rename] at hvalues
    subst haddresses hvalues
    exact hmachine.setSlot (hsessions.scopes.names.counterpart_injective
      hsessions.reachable.wellFormed hsessions.reachable'.wellFormed) a v
  enter := by
    intro view machine renamed scope rs ss vs ws hmachine hrefs hvalues
    rw [Value.corresponds_rename] at hvalues
    obtain rfl := forall₂_map_eq.mp hrefs
    obtain rfl := forall₂_map_eq.mp hvalues
    exact hmachine.entering ⟨rfl, .bind (hsessions.scopes.names.counterpart_injective
      hsessions.reachable.wellFormed hsessions.reachable'.wellFormed) rs vs⟩
  leave _ hmachine := hmachine.leaving
  types hmachine := hmachine.types
  withType size count hmachine :=
    { hmachine with
      types := by
        rw [hmachine.types]
        exact congrArg Prod.snd (TypeStore.allocate_rename _ _ (.characters size count)) }
  channels hmachine := by
    rw [hmachine.channels]
    rfl
  withChannels channels hmachine :=
    { hmachine with channels := by rw [hmachine.channels] }
  written text hmachine := hmachine.emit (.written text)
  text hvalues hshows code id := by
    cases hvalues with
    | plain => exact Value.scalarText_eq_of_ne_buffer hshows.2 code _ _
    | address => exact absurd rfl (hshows.1 _)

/-- Compiled code does not depend on the layout. In sessions that are the same but for
the numbering of symbols, from machines that are the same but for references, every
task ends with the same answer or error and leaves machines that are the same but for
references, with the same output, unless it converts an address or an array to a text. -/
theorem perform_rearranged {first second : Environment} {machine renamed : Machine}
    (hsessions : first.Rearranged second)
    (hmachine : Machine.Renamed (first.counterpart second) machine renamed) (task : Task)
    (haddresses : ∀ target, ¬ task.Converts first machine (.address target))
    (harrays : ∀ bytes, ¬ task.Converts first machine (.buffer bytes)) :
    Agree (Machine.Renamed (first.counterpart second)) Eq (task.perform first machine)
      ((task.rename (first.counterpart second)).perform second renamed) := by
  let sim := layoutSimulation hsessions
  have hmachines : sim.machines () machine renamed := hmachine
  have hshows (value : Value) (hvalue : task.Converts first machine value) : sim.shows value := by
    constructor
    · rintro target rfl
      exact haddresses target hvalue
    · rintro bytes rfl
      exact harrays bytes hvalue
  cases task with
  | body code => exact sim.body hmachines code hshows
  | routine ref receiver => exact sim.routine hmachines rfl receiver hshows

/-- Two names in one scope and the member that makes a text, entered in key order. -/
def inKeyOrder : Environment where
  scopes := ⟨#[{ index := ⟨0⟩
                 symbols := #[
                   { name := "to_str", home := ⟨0⟩
                     defn := .routine .function { code := .native .toStr } },
                   { name := "x", home := ⟨0⟩ }, { name := "y", home := ⟨0⟩ }]
                 names := .node .leaf "to_str" ⟨0⟩
                   (.node .leaf "x" ⟨1⟩ (.node .leaf "y" ⟨2⟩ .leaf))
                 order := some #[⟨0⟩, ⟨1⟩, ⟨2⟩]
                 ranks := #[some ⟨0⟩, some ⟨1⟩, some ⟨2⟩] }]⟩
  settings := {}

/-- The same names, entered the other way round, with arrays in other places. -/
def againstKeyOrder : Environment where
  scopes := ⟨#[{ index := ⟨0⟩
                 symbols := #[
                   { name := "y", home := ⟨0⟩ }, { name := "x", home := ⟨0⟩ },
                   { name := "to_str", home := ⟨0⟩
                     defn := .routine .function { code := .native .toStr } }]
                 names := .node (.node (.node .leaf "to_str" ⟨2⟩ .leaf) "x" ⟨1⟩ .leaf) "y" ⟨0⟩
                   .leaf
                 order := some #[⟨2⟩, ⟨1⟩, ⟨0⟩]
                 ranks := #[some ⟨2⟩, some ⟨1⟩, some ⟨0⟩] }]⟩
  settings := {}
  places _ := "0x7f0010"

/-- What is filled in about the member that makes a text. -/
def asText (symbol : Symbol) : Symbol :=
  { symbol with defn := .routine .function { code := .native .toStr } }

theorem inKeyOrder_reachable : inKeyOrder.scopes.Reachable := by
  have hcreated : ScopeStore.Reachable ⟨#[{ index := ⟨0⟩ }]⟩ := .create .empty rfl
  have hmember := @ScopeStore.Reachable.enter _ _ ⟨0⟩ "to_str" {} ⟨0⟩ hcreated rfl
  have hfirst := @ScopeStore.Reachable.enter _ _ ⟨0⟩ "x" {} ⟨1⟩ hmember rfl
  have hsecond := @ScopeStore.Reachable.enter _ _ ⟨0⟩ "y" {} ⟨2⟩ hfirst rfl
  have hdefined := @ScopeStore.Reachable.define _ _ ⟨⟨0⟩, ⟨0⟩⟩ asText (fun _ => rfl)
    (fun _ => rfl) hsecond rfl
  exact @ScopeStore.Reachable.flatten _ _ ⟨0⟩ hdefined rfl

theorem againstKeyOrder_reachable : againstKeyOrder.scopes.Reachable := by
  have hcreated : ScopeStore.Reachable ⟨#[{ index := ⟨0⟩ }]⟩ := .create .empty rfl
  have hfirst := @ScopeStore.Reachable.enter _ _ ⟨0⟩ "y" {} ⟨0⟩ hcreated rfl
  have hsecond := @ScopeStore.Reachable.enter _ _ ⟨0⟩ "x" {} ⟨1⟩ hfirst rfl
  have hmember := @ScopeStore.Reachable.enter _ _ ⟨0⟩ "to_str" {} ⟨2⟩ hsecond rfl
  have hdefined := @ScopeStore.Reachable.define _ _ ⟨⟨0⟩, ⟨2⟩⟩ asText (fun _ => rfl)
    (fun _ => rfl) hmember rfl
  exact @ScopeStore.Reachable.flatten _ _ ⟨0⟩ hdefined rfl

theorem inKeyOrder_rearranged : inKeyOrder.Rearranged againstKeyOrder := by
  have hwell := inKeyOrder_reachable.wellFormed
  have hwell' := againstKeyOrder_reachable.wellFormed
  have hnumber {number : Nat} {env : Environment} {only scope : Scope}
      (henv : env.scopes = ⟨#[only]⟩) (hscope : env.scopes.scopes[number]? = some scope) :
      number = 0 ∧ only = scope := by
    rw [henv] at hscope
    cases number with
    | zero => exact ⟨rfl, Option.some.inj hscope⟩
    | succ number => simp at hscope
  -- A symbol is told by its name, and the name tells everything about it.
  have hmade (env : Environment) {ref : SymbolRef} {symbol : Symbol}
      (hall : ∀ scope ∈ env.scopes.scopes.toList, ∀ symbol ∈ scope.symbols.toList,
        symbol.type = none ∧ symbol.value = ⟨0⟩ ∧ symbol.defn =
          if symbol.name = "to_str" then .routine .function { code := .native .toStr }
          else .undefined)
      (hsymbol : env.scopes.symbol ref = .ok symbol) :
      symbol.type = none ∧ symbol.value = ⟨0⟩ ∧ symbol.defn =
        if symbol.name = "to_str" then .routine .function { code := .native .toStr }
        else .undefined :=
    ScopeStore.symbol_of_all hall hsymbol
  have hnames : ScopeStore.SameNames inKeyOrder.scopes againstKeyOrder.scopes := by
    refine ⟨rfl, ?_⟩
    intro number scope scope' hscope hscope' name
    have hordered := (hwell number scope hscope).2.ordered
    have hordered' := (hwell' number scope' hscope').2.ordered
    obtain ⟨rfl, rfl⟩ := hnumber rfl hscope
    obtain ⟨-, rfl⟩ := hnumber rfl hscope'
    exact Bool.eq_iff_iff.mpr (hordered.mem_nameList_iff.symm.trans hordered'.mem_nameList_iff)
  refine ⟨inKeyOrder_reachable, againstKeyOrder_reachable, ?_, ?_, ⟨hnames, ?_⟩, rfl⟩
  · intro number scope hscope
    obtain ⟨-, rfl⟩ := hnumber rfl hscope
    rfl
  · intro number scope hscope
    obtain ⟨-, rfl⟩ := hnumber rfl hscope
    rfl
  · intro ref symbol other hsymbol hother
    obtain ⟨found, hfound, hname⟩ := hnames.symbol_counterpart hwell hwell' hsymbol
    obtain rfl : found = other := Except.ok.inj (hfound.symm.trans hother)
    obtain ⟨htype, hvalue, hdefn⟩ := hmade inKeyOrder (by decide) hsymbol
    obtain ⟨htype', hvalue', hdefn'⟩ := hmade againstKeyOrder (by decide) hother
    rw [htype, htype', hvalue, hvalue', hdefn, hdefn', hname]
    refine ⟨rfl, rfl, ?_⟩
    split <;> rfl

/-- Both variables are set, the one to the address of the other. -/
def storeAddress : Body :=
  [.store ⟨⟨0⟩, ⟨1⟩⟩, .push (.int 7), .store ⟨⟨0⟩, ⟨2⟩⟩, .fetch ⟨⟨0⟩, ⟨1⟩⟩]

theorem perform_rearranged_inKeyOrder :
    let y : Value := .address ⟨⟨⟨0⟩, ⟨2⟩⟩, .globals⟩
    let y' : Value := .address ⟨⟨⟨0⟩, ⟨0⟩⟩, .globals⟩
    inKeyOrder.Rearranged againstKeyOrder ∧
      Machine.Renamed (inKeyOrder.counterpart againstKeyOrder) { stack := [y] }
        { stack := [y'] } ∧
      (∀ target, ¬ (Task.body storeAddress).Converts inKeyOrder { stack := [y] }
        (.address target)) ∧
      (∀ bytes, ¬ (Task.body storeAddress).Converts inKeyOrder { stack := [y] }
        (.buffer bytes)) ∧
      Agree (Machine.Renamed (inKeyOrder.counterpart againstKeyOrder)) Eq
        ((Task.body storeAddress).perform inKeyOrder { stack := [y] })
        ((Task.body storeAddress).perform againstKeyOrder { stack := [y'] }) := by
  intro y y'
  have hmachine : Machine.Renamed (inKeyOrder.counterpart againstKeyOrder) { stack := [y] }
      { stack := [y'] } :=
    ⟨rfl, .empty, rfl, by simp, rfl, (TypeStore.rename_predefined _).symm, rfl⟩
  have hconverts (value : Value) :
      ¬ (Task.body storeAddress).Converts inKeyOrder { stack := [y] } value :=
    not_convertsWithin_of_callee?_eq_none (by decide) _ _
  exact ⟨inKeyOrder_rearranged, hmachine, fun _ => hconverts _, fun _ => hconverts _,
    perform_rearranged inKeyOrder_rearranged hmachine (.body storeAddress)
      (fun _ => hconverts _) fun _ => hconverts _⟩

/-- An array that is converted to a text shows where it stands, so the two sessions part
although no address is converted. -/
theorem showing_array_not_rearranged :
    let machine : Machine := { stack := [.buffer [0x61]] }
    let task : Task := .routine ⟨⟨0⟩, ⟨0⟩⟩ (some .int)
    inKeyOrder.Rearranged againstKeyOrder ∧
      Machine.Renamed (inKeyOrder.counterpart againstKeyOrder) machine machine ∧
      (∀ target, ¬ task.Converts inKeyOrder machine (.address target)) ∧
      ¬ Agree (Machine.Renamed (inKeyOrder.counterpart againstKeyOrder)) Eq
        (task.perform inKeyOrder machine)
        ((task.rename (inKeyOrder.counterpart againstKeyOrder)).perform againstKeyOrder
          machine) := by
  intro machine task
  refine ⟨inKeyOrder_rearranged,
    ⟨rfl, .empty, rfl, by simp [machine], rfl, (TypeStore.rename_predefined _).symm, rfl⟩, ?_, ?_⟩
  · rintro target (⟨_, _, -, hhead, -⟩ | ⟨_, _, _, -, hstarts, -⟩)
    · cases hhead
    · obtain ⟨_, _, _, _, _, _, hsymbol, hdefn, hcode, -⟩ := hstarts
      cases hsymbol
      cases hdefn
      cases hcode
  · intro hagree
    have hstacks := hagree.machine.stack
    revert hstacks
    decide +kernel

end ScopeMachine
