/-
# Requests to the symbol tables of a program

The scopes of a program are created one after the other, and each is asked to enter
and look up names and to rank them, in any order and across the scopes. Requests are
data here. A request may be refused, and the tables go on as they were left. Whatever
is requested, every scope keeps its number and stays maintained, and no symbol is lost.
-/

import ScopeMachine.Proofs.Scopes.Requests

namespace ScopeMachine

/-- The state that some work leaves, whether it went through or was refused. -/
def left {ε σ α : Type} : EStateM.Result ε σ α → σ
  | .ok _ state => state
  | .error _ state => state

namespace Scope

variable {scope : Scope}

theorem size_lookup (name : String) (context : Context) :
    (scope.lookup name context).size = scope.size := by
  unfold lookup
  split
  · exact size_refer
  · rfl

theorem size_le_enter (name : String) (context : Context) :
    scope.size ≤ (scope.enter name context).size := by
  unfold enter
  split
  · exact Nat.le_of_eq size_refer.symm
  · split
    · simp [size, push]
    · exact Nat.le_refl _

@[simp]
theorem size_modifySymbol (entry : EntryId) (change : Symbol → Symbol) :
    (scope.modifySymbol entry change).size = scope.size := by
  simp [size, modifySymbol]

theorem Maintained.modifySymbol (hscope : scope.Maintained) (entry : EntryId)
    {change : Symbol → Symbol} (hname : ∀ symbol, (change symbol).name = symbol.name) :
    (scope.modifySymbol entry change).Maintained where
  wellFormed := hscope.wellFormed.modifySymbol entry hname
  bounded := by
    rw [size_modifySymbol]
    exact hscope.bounded
  seated := by
    rw [size_modifySymbol]
    exact hscope.seated
  void := hscope.void
  current hsome other hother := hscope.current hsome other (size_modifySymbol entry change ▸ hother)

/-- The entry that a name is admitted with is there once the name is entered. -/
theorem Maintained.admitted_lt (hscope : scope.Maintained) {name : String} {entry : EntryId}
    (hadmission : scope.admission name = .ok entry) (context : Context) :
    entry.val < (scope.enter name context).size := by
  cases hsearch : scope.search name with
  | some known =>
      rw [admission_of_some hsearch] at hadmission
      cases hadmission
      obtain ⟨symbol, hsymbol, -⟩ := (hscope.wellFormed.searched name entry).mp hsearch
      have hknown : entry.val < scope.size := (Array.getElem?_eq_some_iff.mp hsymbol).1
      exact Nat.lt_of_lt_of_le hknown (size_le_enter name context)
  | none =>
      rw [admission_of_none hsearch] at hadmission
      split at hadmission <;> cases hadmission
      rename_i hroom
      rw [size_enter_of_none hsearch hroom]
      exact Nat.lt_succ_self _

end Scope

namespace ScopeStore

/-- What the symbol tables can be asked to do. What is known about a symbol is filled
in by whoever has found it out. -/
inductive Request where
  | create
  | enter (index : ScopeIndex) (name : String) (context : Context)
  | lookup (index : ScopeIndex) (name : String) (context : Context)
  | define (ref : SymbolRef) (value : Binary64) (type : Option TypeId) (defn : Definition)
  | flatten (index : ScopeIndex)
  | flattenAll

/-- The symbol tables after a request. -/
def Request.after (store : ScopeStore) : Request → ScopeStore
  | .create => left (ScopeStore.create store)
  | .enter index name context => left (ScopeStore.enter index name context store)
  | .lookup index name context => left (ScopeStore.lookup index name context store)
  | .define ref value type defn =>
    left (ScopeStore.modifySymbol ref (fun symbol => { symbol with value, type, defn }) store)
  | .flatten index => left (ScopeStore.flatten index store)
  | .flattenAll => left (ScopeStore.flattenAll store)

/-- The symbol tables after requests one after the other. -/
def serve (store : ScopeStore) (requests : List Request) : ScopeStore :=
  requests.foldl Request.after store

/-- Every scope has the number under which it is found, and is maintained. -/
def Maintained (store : ScopeStore) : Prop :=
  ∀ (number : Nat) (scope : Scope), store.scopes[number]? = some scope →
    scope.index = ⟨number⟩ ∧ scope.Maintained

/-- Symbol tables that have come from others: they are maintained, and every scope is
still there with its symbols and maybe more. -/
structure Follows (store later : ScopeStore) : Prop where
  maintained : later.Maintained
  kept : ∀ (number : Nat) (scope : Scope), store.scopes[number]? = some scope →
    ∃ grown : Scope, later.scopes[number]? = some grown ∧ scope.size ≤ grown.size

variable {store later : ScopeStore}

theorem scope_eq_ok_iff {index : ScopeIndex} {scope : Scope} :
    store.scope index = .ok scope ↔ store.scopes[index.val]? = some scope := by
  unfold ScopeStore.scope
  cases store.scopes[index.val]? <;> simp

theorem index_lt_of_scope {index : ScopeIndex} {scope : Scope}
    (hscope : store.scope index = .ok scope) : index.val < store.size :=
  (Array.getElem?_eq_some_iff.mp (scope_eq_ok_iff.mp hscope)).1

/-- Where all scopes are kept, so are the symbols. -/
theorem symbol_of_kept (hkept : ∀ index scope, store.scope index = .ok scope →
    later.scope index = .ok scope) {ref : SymbolRef} {symbol : Symbol}
    (hsymbol : store.symbol ref = .ok symbol) : later.symbol ref = .ok symbol := by
  obtain ⟨scope, hscope, hentry⟩ := symbol_eq_ok_iff.mp hsymbol
  have hthere := hkept ref.scope scope (scope_eq_ok_iff.mpr hscope)
  exact symbol_eq_ok_iff.mpr ⟨scope, scope_eq_ok_iff.mp hthere, hentry⟩

theorem Maintained.empty : Maintained {} := by
  intro number scope hscope
  simp at hscope

theorem Follows.refl (hstore : store.Maintained) : Follows store store :=
  ⟨hstore, fun _ scope hscope => ⟨scope, hscope, Nat.le_refl _⟩⟩

theorem Follows.trans {last : ScopeStore} (hfirst : Follows store later)
    (hsecond : Follows later last) : Follows store last := by
  refine ⟨hsecond.maintained, ?_⟩
  intro number scope hscope
  obtain ⟨grown, hgrown, hsize⟩ := hfirst.kept number scope hscope
  obtain ⟨more, hmore, hsize'⟩ := hsecond.kept number grown hgrown
  exact ⟨more, hmore, Nat.le_trans hsize hsize'⟩

/-- A symbol that was there is still there. -/
theorem Follows.exists_symbol (hfollows : Follows store later) {ref : SymbolRef}
    (hsymbol : ∃ symbol, store.symbol ref = .ok symbol) :
    ∃ symbol, later.symbol ref = .ok symbol := by
  obtain ⟨symbol, hsymbol⟩ := hsymbol
  obtain ⟨scope, hscope, hentry⟩ := symbol_eq_ok_iff.mp hsymbol
  obtain ⟨grown, hgrown, hsize⟩ := hfollows.kept _ scope hscope
  have hless : ref.entry.val < grown.symbols.size :=
    Nat.lt_of_lt_of_le (Array.getElem?_eq_some_iff.mp hentry).1 hsize
  exact ⟨grown.symbols[ref.entry.val],
    symbol_eq_ok_iff.mpr ⟨grown, hgrown, Array.getElem?_eq_getElem hless⟩⟩

/-- Work on several things in turn leaves tables that stand in a relation to those before,
also when it is refused on the way, if the work on each does. -/
theorem left_forM {α : Type} {relation : ScopeStore → ScopeStore → Prop}
    (hrefl : ∀ {store : ScopeStore}, store.Maintained → relation store store)
    (htrans : ∀ {first second third : ScopeStore}, relation first second →
      relation second third → relation first third)
    (hmaintained : ∀ {first second : ScopeStore}, relation first second → second.Maintained)
    {work : α → ScopeM Unit}
    (hwork : ∀ item {store : ScopeStore}, store.Maintained →
      relation store (left (work item store)))
    (items : List α) {store : ScopeStore} (hstore : store.Maintained) :
    relation store (left ((items.forM work : ScopeM Unit) store)) := by
  induction items generalizing store with
  | nil => exact hrefl hstore
  | cons item rest ih =>
      have hfirst := hwork item hstore
      show relation store (left (EStateM.bind (work item) (fun _ => rest.forM work) store))
      unfold EStateM.bind
      cases hdone : work item store with
      | error refusal here =>
          rw [hdone] at hfirst
          exact hfirst
      | ok answer here =>
          rw [hdone] at hfirst
          exact htrans hfirst (ih (hmaintained hfirst))

/-! ## One request -/

namespace Maintained

variable (hstore : store.Maintained)

include hstore

/-- Changing a scope that keeps its number and its symbols and stays maintained. -/
theorem follows_modifyScope (index : ScopeIndex) {change : Scope → Scope}
    (hchange : ∀ scope, store.scopes[index.val]? = some scope → scope.Maintained →
      (change scope).index = scope.index ∧ (change scope).Maintained ∧
        scope.size ≤ (change scope).size) :
    Follows store (store.modifyScope index change) := by
  constructor
  · intro number scope hscope
    simp only [ScopeStore.modifyScope, Array.getElem?_modify] at hscope
    split at hscope
    · rename_i hnumber
      subst hnumber
      obtain ⟨old, hold, rfl⟩ := Option.map_eq_some_iff.mp hscope
      obtain ⟨hindex, hmaintained⟩ := hstore _ old hold
      obtain ⟨hkept, hlater, -⟩ := hchange old hold hmaintained
      exact ⟨hkept.trans hindex, hlater⟩
    · exact hstore number scope hscope
  · intro number scope hscope
    simp only [ScopeStore.modifyScope, Array.getElem?_modify]
    split
    · rename_i hnumber
      subst hnumber
      rw [hscope]
      exact ⟨change scope, rfl, (hchange scope hscope (hstore _ scope hscope).2).2.2⟩
    · exact ⟨scope, hscope, Nat.le_refl _⟩

theorem follows_create : Follows store (left (create store)) := by
  unfold ScopeStore.create
  split
  · rename_i index hindex
    constructor
    · intro number scope hscope
      simp only [left, Array.getElem?_push] at hscope
      split at hscope
      · rename_i hlast
        cases hscope
        rw [newIndex?_eq] at hindex
        split at hindex <;> cases hindex
        exact ⟨congrArg ScopeIndex.mk hlast.symm, .empty _⟩
      · exact hstore number scope hscope
    · intro number scope hscope
      have hless := (Array.getElem?_eq_some_iff.mp hscope).1
      refine ⟨scope, ?_, Nat.le_refl _⟩
      simp only [left, Array.getElem?_push, if_neg (Nat.ne_of_lt hless), hscope]
  · exact .refl hstore

/-- A scope is added if there is a number left for it, and otherwise nothing happens. -/
theorem create_eq :
    if store.size < ScopeIndex.capacity then
      ∃ later, create store = .ok ⟨store.size⟩ later ∧ later.Maintained ∧
        later.size = store.size + 1 ∧ later.scope ⟨store.size⟩ = .ok { index := ⟨store.size⟩ } ∧
        ∀ index scope, store.scope index = .ok scope → later.scope index = .ok scope
    else create store = .error (.tooManyScopes ScopeIndex.capacity) store := by
  split
  case isTrue hroom =>
    have hcreate : create store =
        .ok ⟨store.size⟩ { store with scopes := store.scopes.push { index := ⟨store.size⟩ } } := by
      rw [create, newIndex?_eq, if_pos hroom]
    have hfollows := hstore.follows_create
    rw [hcreate] at hfollows
    refine ⟨_, hcreate, hfollows.maintained, by simp [size], ?_, ?_⟩
    · simp [ScopeStore.scope, size]
    · intro index scope hscope
      rw [scope_eq_ok_iff] at hscope ⊢
      have hless := (Array.getElem?_eq_some_iff.mp hscope).1
      simp only [Array.getElem?_push, if_neg (Nat.ne_of_lt hless), hscope]
  case isFalse hfull =>
    rw [create, newIndex?_eq, if_neg hfull]
    rfl

theorem follows_enter (index : ScopeIndex) (name : String) (context : Context) :
    Follows store (left (enter index name context store)) := by
  unfold ScopeStore.enter
  split
  · exact .refl hstore
  · split
    · exact .refl hstore
    · exact hstore.follows_modifyScope index fun scope _ hscope =>
        ⟨Scope.index_enter _ _, hscope.enter _ _, Scope.size_le_enter _ _⟩

/-- A name that was entered has a symbol. -/
theorem exists_symbol_of_enter {index : ScopeIndex} {name : String} {context : Context}
    {entry : EntryId} (hdone : enter index name context store = .ok entry later) :
    ∃ symbol, later.symbol ⟨index, entry⟩ = .ok symbol := by
  unfold ScopeStore.enter at hdone
  split at hdone
  · cases hdone
  · rename_i scope hscope
    rw [scope_eq_ok_iff] at hscope
    split at hdone <;> cases hdone
    rename_i hadmission
    have hless := (hstore _ scope hscope).2.admitted_lt hadmission context
    refine ⟨(scope.enter name context).symbols[entry.val], symbol_eq_ok_iff.mpr ?_⟩
    refine ⟨scope.enter name context, ?_, Array.getElem?_eq_getElem hless⟩
    simp only [modifyScope, Array.getElem?_modify, hscope, if_true, Option.map_some]

theorem follows_lookup (index : ScopeIndex) (name : String) (context : Context) :
    Follows store (left (lookup index name context store)) := by
  unfold ScopeStore.lookup
  split
  · exact .refl hstore
  · exact hstore.follows_modifyScope index fun scope _ hscope =>
      ⟨Scope.index_lookup _ _, hscope.lookup _ _, Nat.le_of_eq (Scope.size_lookup _ _).symm⟩

theorem follows_modifySymbol (ref : SymbolRef) {change : Symbol → Symbol}
    (hname : ∀ symbol, (change symbol).name = symbol.name) :
    Follows store (left (modifySymbol ref change store)) := by
  unfold ScopeStore.modifySymbol
  split
  · exact .refl hstore
  · exact hstore.follows_modifyScope ref.scope fun scope _ hscope =>
      ⟨rfl, hscope.modifySymbol _ hname, Nat.le_of_eq (Scope.size_modifySymbol _ _).symm⟩

theorem follows_flatten (index : ScopeIndex) : Follows store (left (flatten index store)) := by
  unfold ScopeStore.flatten
  split
  · exact .refl hstore
  · rename_i flattened hflattened
    apply hstore.follows_modifyScope
    intro scope hscope hmaintained
    obtain ⟨ranks, -, hflatten⟩ := hmaintained.exists_flatten
    simp only [ScopeStore.scope, hscope, bind, Except.bind, hflatten] at hflattened
    cases hflattened
    exact ⟨rfl, hmaintained.flatten hflatten, Nat.le_refl _⟩

theorem follows_flattenAll : Follows store (left (flattenAll store)) :=
  left_forM .refl .trans (·.maintained)
    (fun number _ hmaintained => hmaintained.follows_flatten ⟨number⟩)
    (List.range store.size) hstore

theorem follows_after (request : Request) : Follows store (request.after store) := by
  cases request with
  | create => exact hstore.follows_create
  | enter index name context => exact hstore.follows_enter index name context
  | lookup index name context => exact hstore.follows_lookup index name context
  | define ref value type defn => exact hstore.follows_modifySymbol ref fun _ => rfl
  | flatten index => exact hstore.follows_flatten index
  | flattenAll => exact hstore.follows_flattenAll

/-! ## Any number of requests -/

theorem follows_serve (requests : List Request) : Follows store (store.serve requests) := by
  induction requests generalizing store with
  | nil => exact .refl hstore
  | cons request rest ih =>
      have hfirst := hstore.follows_after request
      exact hfirst.trans (ih hfirst.maintained)

end Maintained

/-- The symbol tables that a program can come to have are maintained. -/
theorem maintained_serve (requests : List Request) : (serve {} requests).Maintained :=
  (Maintained.empty.follows_serve requests).maintained

end ScopeStore

end ScopeMachine
