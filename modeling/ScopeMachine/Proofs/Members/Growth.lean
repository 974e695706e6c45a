/-
# Declarations that grow

Entering members adds scopes, names and types, and changes nothing that was there. What
has been entered once is therefore found again later. The one thing that can be refused
is another scope, when no number is left for it, so how many scopes some work needs
decides beforehand whether it goes through.
-/

import ScopeMachine.Member.Tables
import ScopeMachine.Proofs.Scopes.Addressing
import ScopeMachine.Proofs.Types.Grounded

namespace ScopeMachine

/-! ## A new name in a scope -/

namespace Scope

variable {scope : Scope} {name : String}

/-- The names of a scope, in the order of entry. -/
def symbolNames (scope : Scope) : List String :=
  scope.symbols.toList.map Symbol.name

theorem WellFormed.search_eq_none (hscope : scope.WellFormed)
    (hnew : name ∉ scope.symbolNames) : scope.search name = none := by
  cases hsearch : scope.search name with
  | none => rfl
  | some entry =>
      obtain ⟨symbol, hsymbol, hname⟩ := (hscope.searched name entry).mp hsearch
      have hmem : symbol ∈ scope.symbols.toList :=
        Array.mem_toList_iff.mpr (Array.mem_of_getElem? hsymbol)
      exact absurd (List.mem_map.mpr ⟨symbol, hmem, hname⟩) hnew

/-- What is filled in about a symbol that was entered last. -/
theorem symbols_modifySymbol_enter (hscope : scope.WellFormed) (hnew : name ∉ scope.symbolNames)
    (hroom : scope.size < capacity) (context : Context) (change : Symbol → Symbol) :
    ((scope.enter name context).modifySymbol ⟨scope.size⟩ change).symbols =
      scope.symbols.push (change (scope.newSymbol name context)) := by
  have hentered : (scope.enter name context).symbols = _ :=
    symbols_enter_of_none (hscope.search_eq_none hnew) hroom
  apply Array.ext_getElem?
  intro index
  simp only [modifySymbol, hentered, Array.getElem?_modify, Array.getElem?_push, size]
  by_cases hlast : index = scope.symbols.size
  · simp [hlast]
  · simp [hlast, Ne.symm hlast]

end Scope

namespace ScopeStore

variable {store : ScopeStore} {index : ScopeIndex} {scope : Scope} {name : String}

/-- A name that is new in its scope can be entered if there is room for it, and what is
filled in about its symbol changes nothing else. -/
theorem exists_enter_define (hstore : store.Maintained) (hscope : store.scope index = .ok scope)
    (hnew : name ∉ scope.symbolNames) (hroom : scope.size < Scope.capacity) (context : Context) :
    ∃ entered, enter index name context store = .ok ⟨scope.size⟩ entered ∧
      entered.Maintained ∧
      ∀ change : Symbol → Symbol, (∀ symbol, (change symbol).name = symbol.name) →
        ∃ defined grown, modifySymbol ⟨index, ⟨scope.size⟩⟩ change entered = .ok () defined ∧
          defined.Maintained ∧ defined.size = store.size ∧
          (∀ other, other ≠ index → defined.scope other = store.scope other) ∧
          defined.scope index = .ok grown ∧
          grown.symbols = scope.symbols.push (change (scope.newSymbol name context)) := by
  have hmaintained := (hstore _ scope (scope_eq_ok_iff.mp hscope)).2
  have hsearch := hmaintained.wellFormed.search_eq_none hnew
  have hentered : enter index name context store = .ok ⟨scope.size⟩
      (store.modifyScope index (·.enter name context)) := by
    simp only [enter, hscope, Scope.admission_of_none hsearch, if_pos hroom]
  have hgrown := scope_modifyScope_self hscope (·.enter name context)
  have hothers (other : ScopeIndex) (hother : other ≠ index) :
      (store.modifyScope index (·.enter name context)).scope other = store.scope other := by
    rw [scope_modifyScope, if_neg hother]
  have hsize : (store.modifyScope index (·.enter name context)).size = store.size :=
    size_modifyScope index _
  obtain ⟨symbol, hsymbol⟩ := hstore.exists_symbol_of_enter hentered
  have hfollows := hstore.follows_enter index name context
  rw [hentered] at hfollows
  generalize store.modifyScope index (·.enter name context) = entered at *
  refine ⟨entered, hentered, hfollows.maintained, fun change hname => ?_⟩
  have hdefined : modifySymbol ⟨index, ⟨scope.size⟩⟩ change entered =
      .ok () (entered.modifyScope index (·.modifySymbol ⟨scope.size⟩ change)) := by
    simp only [modifySymbol, hsymbol]
  have hlater := hfollows.maintained.follows_modifySymbol ⟨index, ⟨scope.size⟩⟩ hname
  simp only [left, hdefined] at hlater
  refine ⟨_, (scope.enter name context).modifySymbol ⟨scope.size⟩ change, hdefined,
    hlater.maintained, ?_, ?_, scope_modifyScope_self hgrown _, ?_⟩
  · rw [size_modifyScope, hsize]
  · intro other hother
    rw [scope_modifyScope, if_neg hother, hothers other hother]
  · exact Scope.symbols_modifySymbol_enter hmaintained.wellFormed hnew hroom context change

end ScopeStore

/-! ## Growth -/

namespace Declarations

/-- Declarations that have grown. Scopes, symbols and types were only added, types without
member scopes, and of the scopes that were there only those `touched` have changed. -/
structure Grows (touched : ScopeIndex → Prop) (declarations later : Declarations) : Prop where
  maintained : later.scopes.Maintained
  untouched : ∀ index scope, ¬ touched index → declarations.scopes.scope index = .ok scope →
    later.scopes.scope index = .ok scope
  symbols : ∀ ref symbol, declarations.scopes.symbol ref = .ok symbol →
    later.scopes.symbol ref = .ok symbol
  types : ∀ id info, declarations.types.find id = .ok info → later.types.find id = .ok info
  plain : ∀ id info, declarations.types.size ≤ id.index → later.types.find id = .ok info →
    info.memberScope = none

variable {touched : ScopeIndex → Prop} {declarations here later : Declarations}

theorem Grows.refl (hscopes : declarations.scopes.Maintained) :
    declarations.Grows touched declarations where
  maintained := hscopes
  untouched _ _ _ hscope := hscope
  symbols _ _ hsymbol := hsymbol
  types _ _ hfind := hfind
  plain _ info hbeyond hfind :=
    absurd (TypeStore.find_isOk_iff.mp ⟨info, hfind⟩) (Nat.not_lt.mpr hbeyond)

theorem Grows.trans (hfirst : declarations.Grows touched here)
    (hsecond : here.Grows touched later) : declarations.Grows touched later where
  maintained := hsecond.maintained
  untouched index scope htouched hscope :=
    hsecond.untouched index scope htouched (hfirst.untouched index scope htouched hscope)
  symbols ref symbol hsymbol := hsecond.symbols ref symbol (hfirst.symbols ref symbol hsymbol)
  types id info hfind := hsecond.types id info (hfirst.types id info hfind)
  plain id info hbeyond hfind := by
    by_cases hthere : id.index < here.types.size
    · obtain ⟨known, hknown⟩ := TypeStore.find_isOk_iff.mpr hthere
      rw [hsecond.types id known hknown] at hfind
      cases hfind
      exact hfirst.plain id info hbeyond hknown
    · exact hsecond.plain id info (Nat.le_of_not_lt hthere) hfind

/-- Only the scopes that were there before can have been touched. -/
theorem Grows.mono {wider : ScopeIndex → Prop} (hgrows : declarations.Grows touched later)
    (hwider : ∀ index, index.val < declarations.scopes.size → touched index → wider index) :
    declarations.Grows wider later where
  maintained := hgrows.maintained
  untouched index scope hwide hscope :=
    hgrows.untouched index scope
      (fun htouched => hwide (hwider index (ScopeStore.index_lt_of_scope hscope) htouched)) hscope
  symbols := hgrows.symbols
  types := hgrows.types
  plain := hgrows.plain

/-- What touches no scope can stand where some may be touched. -/
theorem Grows.of_untouched (hgrows : declarations.Grows (fun _ => False) later) :
    declarations.Grows touched later :=
  hgrows.mono fun _ _ hfalse => hfalse.elim

theorem Grows.size_types_le (hgrows : declarations.Grows touched later) :
    declarations.types.size ≤ later.types.size := by
  by_contra hshrunk
  have hless : (⟨later.types.size⟩ : TypeId).index < declarations.types.size :=
    Nat.lt_of_not_le hshrunk
  obtain ⟨info, hinfo⟩ := TypeStore.find_isOk_iff.mpr hless
  have hlater := TypeStore.find_isOk_iff.mp ⟨info, hgrows.types _ info hinfo⟩
  exact Nat.lt_irrefl _ hlater

/-- Types are described as before but for their member scopes, and the scopes `filled` have
the symbols that they had. -/
structure Keeps (filled : ScopeIndex → Prop) (declarations later : Declarations) : Prop where
  types : ∀ id info, declarations.types.find id = .ok info →
    ∃ kept, later.types.find id = .ok kept ∧
      kept.name = info.name ∧ kept.size = info.size ∧ kept.shape = info.shape
  scopes : ∀ index scope, filled index → declarations.scopes.scope index = .ok scope →
    ∃ kept, later.scopes.scope index = .ok kept ∧ kept.symbols = scope.symbols

/-- What grows keeps the scopes that are not touched. -/
theorem Grows.keeps (hgrows : declarations.Grows touched later) :
    declarations.Keeps (¬ touched ·) later where
  types id info hfind := ⟨info, hgrows.types id info hfind, rfl, rfl, rfl⟩
  scopes index scope huntouched hscope :=
    ⟨scope, hgrows.untouched index scope huntouched hscope, rfl⟩

/-- A symbol more in one of the scopes. -/
theorem Grows.push {scopes defined : ScopeStore} (types : TypeStore) {index : ScopeIndex}
    {scope grown : Scope} {symbol : Symbol} (hdefined : defined.Maintained)
    (hothers : ∀ other, other ≠ index → defined.scope other = scopes.scope other)
    (hscope : scopes.scope index = .ok scope) (hgrown : defined.scope index = .ok grown)
    (hsymbols : grown.symbols = scope.symbols.push symbol) :
    Grows (· = index) ⟨scopes, types⟩ ⟨defined, types⟩ where
  maintained := hdefined
  untouched other _ hother hfound := (hothers other hother).trans hfound
  symbols ref known hknown := by
    obtain ⟨found, hfound, hentry⟩ := ScopeStore.symbol_eq_ok_iff.mp hknown
    rw [← ScopeStore.scope_eq_ok_iff] at hfound
    by_cases hindex : ref.scope = index
    · rw [hindex, hscope] at hfound
      cases hfound
      rw [ScopeStore.symbol_eq_ok_iff, hindex]
      refine ⟨grown, ScopeStore.scope_eq_ok_iff.mp hgrown, ?_⟩
      have hless := (Array.getElem?_eq_some_iff.mp hentry).1
      rw [Scope.symbol?, hsymbols, Array.getElem?_push, if_neg (Nat.ne_of_lt hless)]
      exact hentry
    · rw [ScopeStore.symbol_eq_ok_iff]
      refine ⟨found, ?_, hentry⟩
      rw [← ScopeStore.scope_eq_ok_iff, hothers _ hindex]
      exact hfound
  types _ _ hfind := hfind
  plain _ info hbeyond hfind :=
    absurd (TypeStore.find_isOk_iff.mp ⟨info, hfind⟩) (Nat.not_lt.mpr hbeyond)

/-- An array of no fixed length is a type more. -/
theorem Grows.openArray {scopes : ScopeStore} (types : TypeStore) (hscopes : scopes.Maintained)
    (element : TypeId) :
    Grows touched ⟨scopes, types⟩
      ⟨scopes, (types.allocate
        { name := none, size := 0, shape := .array ⟨element, 0, 0⟩ }).2⟩ where
  maintained := hscopes
  untouched _ _ _ hscope := hscope
  symbols _ _ hsymbol := hsymbol
  types id info hfind := by
    rw [TypeStore.find_allocate_of_lt _ _ (TypeStore.find_isOk_iff.mp ⟨info, hfind⟩)]
    exact hfind
  plain id info hbeyond hfind := by
    rcases TypeStore.find_of_allocate hfind with ⟨-, rfl⟩ | hold
    · rfl
    · exact absurd (TypeStore.find_isOk_iff.mp ⟨info, hold⟩) (Nat.not_lt.mpr hbeyond)

/-- There are numbers left for `room` further scopes. -/
def HasRoom (declarations : Declarations) (room : Nat) : Prop :=
  room = 0 ∨ declarations.scopes.size + room ≤ ScopeIndex.capacity

end Declarations

/-! ## Work that needs further scopes -/

namespace InstallM

variable {α β : Type} {touched wider : ScopeIndex → Prop} {declarations : Declarations}
  {room more : Nat} {work : InstallM α} {next : α → InstallM β}
  {expected wanted : α → Declarations → Prop}

/-- Some work needs `room` further scopes. If there are numbers left for them it goes
through, and what comes of it is as expected. Otherwise it is refused for want of numbers,
and until then the declarations have only grown. -/
def Needs (touched : ScopeIndex → Prop) (room : Nat) (work : InstallM α)
    (expected : α → Declarations → Prop) (declarations : Declarations) : Prop :=
  match work declarations with
  | .ok answer later => declarations.HasRoom room ∧ expected answer later
  | .error refusal later => refusal = .scope (.tooManyScopes ScopeIndex.capacity) ∧
      ¬ declarations.HasRoom room ∧ declarations.Grows touched later

theorem Needs.of_ok (answer : α) (later : Declarations)
    (hdone : work declarations = .ok answer later) (hexpected : expected answer later) :
    Needs touched 0 work expected declarations := by
  unfold Needs
  rw [hdone]
  exact ⟨.inl rfl, hexpected⟩

/-- Work that went through had the room that it needs. -/
theorem Needs.of_done (hwork : Needs touched room work expected declarations) {answer : α}
    {later : Declarations} (hdone : work declarations = .ok answer later) :
    declarations.HasRoom room ∧ expected answer later := by
  unfold Needs at hwork
  rwa [hdone] at hwork

/-- Work that was refused had not. -/
theorem Needs.of_refused (hwork : Needs touched room work expected declarations)
    {refusal : InstallError} {later : Declarations}
    (hrefused : work declarations = .error refusal later) :
    refusal = .scope (.tooManyScopes ScopeIndex.capacity) ∧ ¬ declarations.HasRoom room ∧
      declarations.Grows touched later := by
  unfold Needs at hwork
  rwa [hrefused] at hwork

theorem Needs.imp (hwork : Needs touched room work expected declarations)
    (hwanted : ∀ answer later, expected answer later → wanted answer later) :
    Needs touched room work wanted declarations := by
  unfold Needs at hwork ⊢
  split at hwork
  · exact ⟨hwork.1, hwanted _ _ hwork.2⟩
  · exact hwork

theorem Needs.mono (hwork : Needs touched room work expected declarations)
    (hwider : ∀ index, index.val < declarations.scopes.size → touched index → wider index) :
    Needs wider room work expected declarations := by
  unfold Needs at hwork ⊢
  split at hwork
  · exact hwork
  · exact ⟨hwork.1, hwork.2.1, hwork.2.2.mono hwider⟩

/-- What comes next needs its scopes besides those that are there by then. -/
theorem Needs.bind {last : β → Declarations → Prop}
    (hwork : Needs touched room work (fun answer here =>
      here.scopes.size = declarations.scopes.size + room ∧ declarations.Grows touched here ∧
        Needs touched more (next answer) last here) declarations) :
    Needs touched (room + more) (work >>= next) last declarations := by
  show match EStateM.bind work next declarations with
    | .ok answer later => declarations.HasRoom (room + more) ∧ last answer later
    | .error refusal later => refusal = .scope (.tooManyScopes ScopeIndex.capacity) ∧
        ¬ declarations.HasRoom (room + more) ∧ declarations.Grows touched later
  unfold EStateM.bind
  -- Room for all of it means room for what is done first and, with that done, for the rest.
  cases hdone : work declarations with
  | error refusal here =>
      obtain ⟨hrefusal, hfull, hgrows⟩ := hwork.of_refused hdone
      refine ⟨hrefusal, ?_, hgrows⟩
      unfold Declarations.HasRoom at hfull ⊢
      omega
  | ok answer here =>
      obtain ⟨hroom, hsize, hgrows, hnext⟩ := hwork.of_done hdone
      unfold Declarations.HasRoom at hroom
      dsimp only
      cases hend : next answer here with
      | error refusal later =>
          obtain ⟨hrefusal, hfull, hlater⟩ := hnext.of_refused hend
          refine ⟨hrefusal, ?_, hgrows.trans hlater⟩
          unfold Declarations.HasRoom at hfull ⊢
          omega
      | ok result later =>
          obtain ⟨hleft, hlast⟩ := hnext.of_done hend
          refine ⟨?_, hlast⟩
          unfold Declarations.HasRoom at hleft ⊢
          omega

/-- One further scope. -/
theorem needs_create (hscopes : declarations.scopes.Maintained) :
    Needs touched 1 (onScopes ScopeStore.create) (fun index later =>
      index = ⟨declarations.scopes.size⟩ ∧
        later.scopes.size = declarations.scopes.size + 1 ∧
          declarations.Grows (fun _ => False) later ∧
            later.scopes.scope index = .ok { index }) declarations := by
  have hcreate := hscopes.create_eq
  unfold Needs onScopes Declarations.HasRoom
  by_cases hroom : declarations.scopes.size < ScopeIndex.capacity
  · rw [if_pos hroom] at hcreate
    obtain ⟨later, hdone, hlater, hsize, hnew, hkept⟩ := hcreate
    rw [hdone]
    refine ⟨by omega, rfl, hsize, ?_, hnew⟩
    exact {
      maintained := hlater
      untouched := fun index scope _ hscope => hkept index scope hscope
      symbols := fun _ _ hsymbol => ScopeStore.symbol_of_kept hkept hsymbol
      types := fun _ _ hfind => hfind
      plain := (Declarations.Grows.refl hscopes : declarations.Grows touched declarations).plain }
  · rw [if_neg hroom] at hcreate
    rw [hcreate]
    exact ⟨rfl, by omega, .refl hscopes⟩

end InstallM

end ScopeMachine
