/-
# How much the symbol tables hold

A scope takes a new name as long as it holds fewer symbols than can be ranked, and a scope
is created as long as there is a number left for it. Without room a request is refused
before anything is changed. So no scope ever holds more symbols than can be ranked, and
ranking them is never refused.
-/

import Mathlib.Data.Fintype.EquivFin
import ScopeMachine.Proofs.Scopes.Addressing

namespace ScopeMachine

namespace Scope

/-- Every symbol says that it is held by this scope. -/
def OwnsSymbols (scope : Scope) : Prop :=
  ∀ entry symbol, scope.symbol? entry = some symbol → symbol.home = scope.index

/-- Every symbol has a rank, and the rank can be written in 16 bits. -/
def RanksAll (scope : Scope) : Prop :=
  ∀ entry symbol, scope.symbol? entry = some symbol →
    ∃ rank, scope.rank? entry = some rank ∧ rank.val < 65536

variable {scope : Scope}

theorem OwnsSymbols.empty (index : ScopeIndex) : OwnsSymbols { index } := by
  intro entry symbol hsymbol
  simp [symbol?] at hsymbol

theorem OwnsSymbols.modifySymbol (hscope : scope.OwnsSymbols) (entry : EntryId)
    {change : Symbol → Symbol} (hhome : ∀ symbol, (change symbol).home = symbol.home) :
    (scope.modifySymbol entry change).OwnsSymbols := by
  intro other symbol hsymbol
  rw [symbol?_modifySymbol] at hsymbol
  obtain ⟨old, hold, rfl⟩ := Option.map_eq_some_iff.mp hsymbol
  have hhere : old.home = scope.index := hscope other old hold
  split
  · exact (hhome old).trans hhere
  · exact hhere

theorem OwnsSymbols.refer (hscope : scope.OwnsSymbols) (entry : EntryId) (context : Context) :
    (scope.refer entry context).OwnsSymbols := by
  unfold Scope.refer
  split
  · exact hscope.modifySymbol entry fun _ => rfl
  · exact hscope

theorem OwnsSymbols.lookup (hscope : scope.OwnsSymbols) (name : String) (context : Context) :
    (scope.lookup name context).OwnsSymbols := by
  unfold Scope.lookup
  split
  · exact hscope.refer _ context
  · exact hscope

theorem home_newSymbol (name : String) (context : Context) :
    (scope.newSymbol name context).home = scope.index := by
  unfold newSymbol
  dsimp only
  split <;> rfl

theorem OwnsSymbols.enter (hscope : scope.OwnsSymbols) (name : String) (context : Context) :
    (scope.enter name context).OwnsSymbols := by
  cases hsearch : scope.search name with
  | some entry =>
      rw [enter_of_some hsearch]
      exact hscope.refer entry context
  | none =>
      by_cases hroom : scope.size < capacity
      · intro entry symbol hsymbol
        simp only [symbol?, symbols_enter_of_none hsearch hroom, Array.getElem?_push] at hsymbol
        rw [index_enter]
        split at hsymbol
        · cases hsymbol
          exact home_newSymbol name context
        · exact hscope entry symbol hsymbol
      · rw [enter_of_full hsearch (Nat.not_lt.mp hroom)]
        exact hscope

/-- A new name that is entered is found, behind the symbols that were there. -/
theorem Maintained.search_enter_self (hscope : scope.Maintained) {name : String}
    (hsearch : scope.search name = none) (hroom : scope.size < capacity) (context : Context) :
    (scope.enter name context).search name = some ⟨scope.size⟩ := by
  have hlater := (hscope.enter name context).wellFormed
  rw [hlater.searched, symbol?, symbols_enter_of_none hsearch hroom]
  exact ⟨scope.newSymbol name context, by simp [size], name_newSymbol name context⟩

/-- As many symbols as a scope can hold can be ranked. -/
theorem Maintained.ranksAll (hscope : scope.Maintained) (hflattened : scope.isFlattened) :
    scope.RanksAll := by
  intro entry symbol hsymbol
  have hentry : entry.val < scope.size := (Array.getElem?_eq_some_iff.mp hsymbol).1
  refine ⟨_, hscope.rank?_eq_idxOf hflattened hentry, ?_⟩
  calc scope.names.entries.idxOf entry
      < scope.names.entries.length :=
        List.idxOf_lt_length_iff.mpr (hscope.wellFormed.mem_entries_iff.mpr hentry)
    _ = scope.size := hscope.wellFormed.length_entries
    _ ≤ capacity := hscope.bounded

end Scope

namespace ScopeStore

variable {store : ScopeStore}

/-- Every symbol says which scope holds it. -/
def OwnsSymbols (store : ScopeStore) : Prop :=
  ∀ index scope, store.scope index = .ok scope → scope.OwnsSymbols

theorem exists_scope {index : ScopeIndex} (hindex : index.val < store.size) :
    ∃ scope, store.scope index = .ok scope :=
  ⟨store.scopes[index.val], scope_eq_ok_iff.mpr (Array.getElem?_eq_getElem hindex)⟩

/-- What is made of a scope is all that a change to it does. -/
theorem modifyScope_eq {index : ScopeIndex} {scope : Scope}
    (hscope : store.scope index = .ok scope) (change : Scope → Scope) :
    store.modifyScope index change = store.modifyScope index fun _ => change scope := by
  unfold modifyScope
  congr 1
  apply Array.ext_getElem?
  intro number
  rw [Array.getElem?_modify, Array.getElem?_modify]
  split
  · rename_i hnumber
    rw [← hnumber, scope_eq_ok_iff.mp hscope]
    rfl
  · rfl

theorem OwnsSymbols.modifyScope (hstore : store.OwnsSymbols) {index : ScopeIndex}
    {change : Scope → Scope}
    (hchange : ∀ scope, store.scope index = .ok scope → scope.OwnsSymbols →
      (change scope).OwnsSymbols) :
    (store.modifyScope index change).OwnsSymbols := by
  intro other later hlater
  rw [scope_modifyScope] at hlater
  split at hlater
  · rename_i hother
    subst hother
    cases hscope : store.scope other with
    | error refusal =>
        rw [hscope] at hlater
        cases hlater
    | ok scope =>
        rw [hscope] at hlater
        cases hlater
        exact hchange scope hscope (hstore other scope hscope)
  · exact hstore other later hlater

/-! ## Ranking -/

/-- A scope can always be ranked, which changes nothing but its order and its ranks. -/
theorem Maintained.exists_flatten (hstore : store.Maintained) {index : ScopeIndex}
    {scope : Scope} (hscope : store.scope index = .ok scope) :
    ∃ ranked : Scope, flatten index store = .ok () (store.modifyScope index fun _ => ranked) ∧
      (store.modifyScope index fun _ => ranked).Maintained ∧
      ranked.index = scope.index ∧ ranked.symbols = scope.symbols ∧ ranked.isFlattened := by
  obtain ⟨ranks, -, hranked⟩ := (hstore.scope_maintained hscope).exists_flatten
  have hflatten : flatten index store = .ok () (store.modifyScope index fun _ =>
      { scope with ranks := ranks, order := some scope.names.entries.toArray }) := by
    simp only [flatten, hscope, bind, Except.bind, hranked]
  have hfollows := hstore.follows_flatten index
  rw [hflatten] at hfollows
  exact ⟨_, hflatten, hfollows.maintained, rfl, rfl, rfl⟩

/-- Ranking some scopes in turn goes through and changes nothing else. -/
theorem Maintained.exists_flatten_each (hstore : store.Maintained) {indices : List ScopeIndex}
    (hthere : ∀ index ∈ indices, index.val < store.size) :
    ∃ later, indices.forM flatten store = .ok () later ∧ later.Maintained ∧
      later.size = store.size ∧
      ∀ index scope, store.scope index = .ok scope →
        ∃ ranked, later.scope index = .ok ranked ∧ ranked.symbols = scope.symbols ∧
          (index ∉ indices → ranked = scope) ∧
          (index ∈ indices ∨ scope.isFlattened → ranked.isFlattened) := by
  induction indices generalizing store with
  | nil =>
      refine ⟨store, rfl, hstore, rfl, fun index scope hscope => ?_⟩
      exact ⟨scope, hscope, rfl, fun _ => rfl, by simp⟩
  | cons first rest ih =>
      obtain ⟨scope, hscope⟩ := exists_scope (hthere first List.mem_cons_self)
      obtain ⟨flattened, hflatten, hmaintained, -, hkept, hflattened⟩ :=
        hstore.exists_flatten hscope
      obtain ⟨later, hlater, hlaterMaintained, hsize, hranked⟩ := ih hmaintained
        fun index hmem => by
          rw [size_modifyScope]
          exact hthere index (List.mem_cons_of_mem _ hmem)
      refine ⟨later, ?_, hlaterMaintained, by rw [hsize, size_modifyScope], ?_⟩
      · show EStateM.bind (flatten first) (fun _ => rest.forM flatten) store = _
        simp only [EStateM.bind, hflatten]
        exact hlater
      · intro index old hold
        by_cases hfirst : index = first
        · subst hfirst
          rw [hscope] at hold
          cases hold
          obtain ⟨ranked, hfound, hsymbols, -, hstays⟩ :=
            hranked index _ (scope_modifyScope_self hscope _)
          exact ⟨ranked, hfound, hsymbols.trans hkept,
            fun hnot => absurd List.mem_cons_self hnot, fun _ => hstays (.inr hflattened)⟩
        · obtain ⟨ranked, hfound, hsymbols, hsame, hstays⟩ := hranked index old (by
            rw [scope_modifyScope, if_neg hfirst, hold])
          exact ⟨ranked, hfound, hsymbols, by simpa [hfirst] using hsame,
            by simpa [hfirst] using hstays⟩

/-- Ranking all scopes goes through. -/
theorem Maintained.exists_flattenAll (hstore : store.Maintained) :
    ∃ later, flattenAll store = .ok () later ∧ later.Maintained ∧ later.size = store.size ∧
      ∀ index scope, store.scope index = .ok scope →
        ∃ ranked, later.scope index = .ok ranked ∧ ranked.symbols = scope.symbols ∧
          ranked.isFlattened := by
  have heach : (((List.range store.size).map ScopeIndex.mk).forM flatten : ScopeM Unit) =
      (List.range store.size).forM fun number => flatten ⟨number⟩ := List.forM_map ..
  have hthere : ∀ index ∈ (List.range store.size).map ScopeIndex.mk, index.val < store.size := by
    simp
  obtain ⟨later, hlater, hmaintained, hsize, hranked⟩ := hstore.exists_flatten_each hthere
  refine ⟨later, (congrFun heach store).symm.trans hlater, hmaintained, hsize, ?_⟩
  intro index scope hscope
  obtain ⟨ranked, hfound, hsymbols, -, hflattened⟩ := hranked index scope hscope
  have hmem : index ∈ (List.range store.size).map ScopeIndex.mk :=
    List.mem_map.mpr ⟨index.val, List.mem_range.mpr (index_lt_of_scope hscope), rfl⟩
  exact ⟨ranked, hfound, hsymbols, hflattened (.inl hmem)⟩

/-! ## Requests -/

namespace Maintained

variable (hstore : store.Maintained)

include hstore

/-- Only creating a scope changes how many there are. -/
theorem size_after {request : Request} (hrequest : request ≠ .create) :
    (request.after store).size = store.size := by
  cases request with
  | create => exact absurd rfl hrequest
  | enter index name context =>
      simp only [Request.after, enter]
      split
      · rfl
      · split <;> simp [left]
  | lookup index name context =>
      simp only [Request.after, lookup]
      split <;> simp [left]
  | define ref value type defn =>
      simp only [Request.after, modifySymbol]
      split <;> simp [left]
  | flatten index =>
      simp only [Request.after, flatten]
      split <;> simp [left]
  | flattenAll =>
      obtain ⟨later, hlater, -, hsize, -⟩ := hstore.exists_flattenAll
      rw [Request.after, hlater]
      exact hsize

theorem ownsSymbols_create (howns : store.OwnsSymbols) : (left (create store)).OwnsSymbols := by
  have hcreate := hstore.create_eq
  split at hcreate
  case isFalse =>
    rw [hcreate]
    exact howns
  case isTrue =>
    obtain ⟨later, hdone, -, hsize, hnew, hkept⟩ := hcreate
    rw [hdone]
    intro index scope hscope
    have hindex : index.val < store.size + 1 := hsize ▸ index_lt_of_scope hscope
    rcases Nat.lt_succ_iff_lt_or_eq.mp hindex with hbefore | hlast
    · obtain ⟨old, hold⟩ := exists_scope hbefore
      obtain rfl : old = scope := Except.ok.inj ((hkept index old hold).symm.trans hscope)
      exact howns index old hold
    · obtain rfl : index = ⟨store.size⟩ := congrArg ScopeIndex.mk hlast
      obtain rfl := Except.ok.inj (hnew.symm.trans hscope)
      exact .empty _

theorem ownsSymbols_flatten (howns : store.OwnsSymbols) (index : ScopeIndex) :
    (left (flatten index store)).OwnsSymbols := by
  cases hscope : store.scope index with
  | error refusal =>
      simp only [flatten, hscope]
      exact howns
  | ok scope =>
      obtain ⟨ranked, hflatten, -, hindex, hsymbols, -⟩ := hstore.exists_flatten hscope
      rw [hflatten]
      apply howns.modifyScope
      intro _ _ _ entry symbol hsymbol
      rw [hindex]
      exact howns index scope hscope entry symbol (by rwa [Scope.symbol?, hsymbols] at hsymbol)

theorem ownsSymbols_flattenAll (howns : store.OwnsSymbols) :
    (left (flattenAll store)).OwnsSymbols := by
  obtain ⟨later, hlater, hmaintained, hsize, hranked⟩ := hstore.exists_flattenAll
  rw [hlater]
  intro index scope hscope entry symbol hsymbol
  obtain ⟨old, hold⟩ := exists_scope (hsize ▸ index_lt_of_scope hscope)
  obtain ⟨ranked, hfound, hsymbols, -⟩ := hranked index old hold
  obtain rfl : ranked = scope := Except.ok.inj (hfound.symm.trans hscope)
  rw [Scope.symbol?, hsymbols] at hsymbol
  rw [hmaintained.index_eq hscope, ← hstore.index_eq hold]
  exact howns index old hold entry symbol hsymbol

theorem ownsSymbols_after (howns : store.OwnsSymbols) (request : Request) :
    (request.after store).OwnsSymbols := by
  cases request with
  | create => exact hstore.ownsSymbols_create howns
  | enter index name context =>
      simp only [Request.after, enter]
      split
      · exact howns
      · split
        · exact howns
        · exact howns.modifyScope fun scope _ hscope => hscope.enter name context
  | lookup index name context =>
      simp only [Request.after, lookup]
      split
      · exact howns
      · exact howns.modifyScope fun scope _ hscope => hscope.lookup name context
  | define ref value type defn =>
      simp only [Request.after, modifySymbol]
      split
      · exact howns
      · exact howns.modifyScope fun scope _ hscope => hscope.modifySymbol _ fun _ => rfl
  | flatten index => exact hstore.ownsSymbols_flatten howns index
  | flattenAll => exact hstore.ownsSymbols_flattenAll howns

theorem ownsSymbols_serve (howns : store.OwnsSymbols) (requests : List Request) :
    (store.serve requests).OwnsSymbols := by
  induction requests generalizing store with
  | nil => exact howns
  | cons request rest ih =>
      exact ih (hstore.follows_after request).maintained (hstore.ownsSymbols_after howns request)

end Maintained

/-- The scope that a request creates, if it creates one. -/
def Request.created? (store : ScopeStore) : Request → Option ScopeIndex
  | .create =>
    match ScopeStore.create store with
    | .ok index _ => some index
    | .error _ _ => none
  | _ => none

/-- The scopes that requests create, one after the other. -/
def created (store : ScopeStore) : List Request → List ScopeIndex
  | [] => []
  | request :: rest => (request.created? store).toList ++ created (request.after store) rest

/-- The numbers of as many scopes, in order. -/
def numbers (count : Nat) : List ScopeIndex :=
  (List.range count).map ScopeIndex.mk

theorem numbers_succ (count : Nat) : numbers (count + 1) = numbers count ++ [⟨count⟩] := by
  simp [numbers, List.range_succ]

/-- A scope that is created is given the next number. -/
theorem Maintained.numbers_created? (hstore : store.Maintained) (request : Request) :
    numbers store.size ++ (request.created? store).toList =
      numbers (request.after store).size := by
  by_cases hrequest : request = .create
  · subst hrequest
    have hcreate := hstore.create_eq
    split at hcreate
    case isTrue =>
      obtain ⟨later, hdone, -, hsize, -⟩ := hcreate
      simp only [Request.created?, Request.after, hdone, left, hsize, numbers_succ,
        Option.toList_some]
    case isFalse => simp [Request.created?, Request.after, hcreate, left]
  · have hnone : request.created? store = none := by
      cases request with
      | create => exact absurd rfl hrequest
      | _ => rfl
    rw [hnone, hstore.size_after hrequest, Option.toList_none, List.append_nil]

/-- Scopes are numbered in the order in which they are created. -/
theorem Maintained.numbers_created (hstore : store.Maintained) (requests : List Request) :
    numbers store.size ++ created store requests = numbers (store.serve requests).size := by
  induction requests generalizing store with
  | nil => rw [created, List.append_nil, serve, List.foldl_nil]
  | cons request rest ih =>
      rw [created, ← List.append_assoc, hstore.numbers_created?,
        ih (hstore.follows_after request).maintained, serve, serve, List.foldl_cons]

/-! ## What is taken and what is refused -/

/-- The symbol tables take what there is room for, and without room are left as they were. -/
structure WithinCapacity (store : ScopeStore) : Prop where
  /-- A new name is entered just where fewer than 65536 symbols are held. -/
  entered : ∀ index name context scope, store.scope index = .ok scope →
    scope.search name = none →
      if scope.size < 65536 then
        ∃ later grown, enter index name context store = .ok ⟨scope.size⟩ later ∧
          later.scope index = .ok grown ∧ grown.size = scope.size + 1 ∧
          grown.search name = some ⟨scope.size⟩ ∧
          ∀ other, other ≠ index → later.scope other = store.scope other
      else enter index name context store = .error (.scopeFull index 65536) store
  /-- A name that is there is entered and looked up, which is a reference to its symbol,
  however many symbols are held. -/
  known : ∀ index name context scope entry, store.scope index = .ok scope →
    scope.search name = some entry →
      let later := store.modifyScope index fun _ => scope.refer entry context
      enter index name context store = .ok entry later ∧
        lookup index name context store = .ok (some entry) later
  /-- A scope is created just where there are fewer than 65536. -/
  created :
    if store.size < 65536 then
      ∃ later, create store = .ok ⟨store.size⟩ later ∧ later.size = store.size + 1 ∧
        later.scope ⟨store.size⟩ = .ok { index := ⟨store.size⟩ } ∧
        ∀ index scope, store.scope index = .ok scope → later.scope index = .ok scope
    else create store = .error (.tooManyScopes 65536) store
  /-- What is refused changes nothing. -/
  refused : ∀ refusal later, (create store = .error refusal later ∨
    ∃ index name context, enter index name context store = .error refusal later) →
      later = store
  /-- A scope has the number under which it is found, and its symbols tell this number. -/
  numbered : ∀ index scope, store.scope index = .ok scope →
    scope.index = index ∧ scope.OwnsSymbols
  /-- Every scope can be ranked, and then all its symbols have ranks. -/
  ranked : ∀ index scope, store.scope index = .ok scope →
    ∃ later ranked, flatten index store = .ok () later ∧ later.scope index = .ok ranked ∧
      ranked.symbols = scope.symbols ∧ ranked.RanksAll
  /-- All scopes can be ranked at once, and then all their symbols have ranks. -/
  allRanked : ∃ later, flattenAll store = .ok () later ∧ later.size = store.size ∧
    ∀ index scope, store.scope index = .ok scope →
      ∃ ranked, later.scope index = .ok ranked ∧ ranked.symbols = scope.symbols ∧
        ranked.RanksAll

theorem enter_of_known {index : ScopeIndex} {name : String} {scope : Scope} {entry : EntryId}
    (hscope : store.scope index = .ok scope) (hsearch : scope.search name = some entry)
    (context : Context) :
    enter index name context store =
      .ok entry (store.modifyScope index fun _ => scope.refer entry context) := by
  simp only [enter, hscope, Scope.admission_of_some hsearch]
  rw [modifyScope_eq hscope, Scope.enter_of_some hsearch]

theorem lookup_of_known {index : ScopeIndex} {name : String} {scope : Scope} {entry : EntryId}
    (hscope : store.scope index = .ok scope) (hsearch : scope.search name = some entry)
    (context : Context) :
    lookup index name context store =
      .ok (some entry) (store.modifyScope index fun _ => scope.refer entry context) := by
  simp only [lookup, hscope, hsearch]
  rw [modifyScope_eq hscope, Scope.lookup, hsearch]

theorem eq_of_create_eq_error {later : ScopeStore} {refusal : ScopeError}
    (hrefused : create store = .error refusal later) : later = store := by
  unfold create at hrefused
  split at hrefused <;> cases hrefused
  rfl

theorem eq_of_enter_eq_error {later : ScopeStore} {refusal : ScopeError} {index : ScopeIndex}
    {name : String} {context : Context}
    (hrefused : enter index name context store = .error refusal later) : later = store := by
  unfold enter at hrefused
  split at hrefused
  · cases hrefused
    rfl
  · split at hrefused <;> cases hrefused
    rfl

theorem Maintained.enter_of_new (hstore : store.Maintained) {index : ScopeIndex} {name : String}
    {scope : Scope} (hscope : store.scope index = .ok scope) (hsearch : scope.search name = none)
    (context : Context) :
    if scope.size < Scope.capacity then
      ∃ later grown, enter index name context store = .ok ⟨scope.size⟩ later ∧
        later.scope index = .ok grown ∧ grown.size = scope.size + 1 ∧
        grown.search name = some ⟨scope.size⟩ ∧
        ∀ other, other ≠ index → later.scope other = store.scope other
    else enter index name context store = .error (.scopeFull index Scope.capacity) store := by
  split
  case isTrue hroom =>
    refine ⟨store.modifyScope index (·.enter name context), scope.enter name context, ?_,
      scope_modifyScope_self hscope _, ?_,
      (hstore.scope_maintained hscope).search_enter_self hsearch hroom context, ?_⟩
    · simp only [enter, hscope, Scope.admission_of_none hsearch, if_pos hroom]
    · exact Scope.size_enter_of_none hsearch hroom
    · intro other hother
      rw [scope_modifyScope, if_neg hother]
  case isFalse hfull =>
    simp only [enter, hscope, Scope.admission_of_none hsearch, if_neg hfull,
      hstore.index_eq hscope]

theorem Maintained.withinCapacity (hstore : store.Maintained) (howns : store.OwnsSymbols) :
    store.WithinCapacity where
  entered index name context scope hscope hsearch := hstore.enter_of_new hscope hsearch context
  known index name context scope entry hscope hsearch :=
    ⟨enter_of_known hscope hsearch context, lookup_of_known hscope hsearch context⟩
  created := by
    have hcreate := hstore.create_eq
    split at hcreate
    case isTrue hroom =>
      obtain ⟨later, hdone, -, hkept⟩ := hcreate
      rw [if_pos (show store.size < 65536 from hroom)]
      exact ⟨later, hdone, hkept⟩
    case isFalse hfull =>
      rw [if_neg (show ¬ store.size < 65536 from hfull)]
      exact hcreate
  refused := by
    rintro refusal later (hrefused | ⟨index, name, context, hrefused⟩)
    · exact eq_of_create_eq_error hrefused
    · exact eq_of_enter_eq_error hrefused
  numbered index scope hscope := ⟨hstore.index_eq hscope, howns index scope hscope⟩
  ranked := by
    intro index scope hscope
    obtain ⟨ranked, hflatten, hlater, -, hsymbols, hflattened⟩ := hstore.exists_flatten hscope
    have hranked := scope_modifyScope_self hscope fun _ => ranked
    exact ⟨_, _, hflatten, hranked, hsymbols,
      (hlater.scope_maintained hranked).ranksAll hflattened⟩
  allRanked := by
    obtain ⟨later, hlater, hmaintained, hsize, hranked⟩ := hstore.exists_flattenAll
    refine ⟨later, hlater, hsize, fun index scope hscope => ?_⟩
    obtain ⟨ranked, hfound, hsymbols, hflattened⟩ := hranked index scope hscope
    exact ⟨ranked, hfound, hsymbols, (hmaintained.scope_maintained hfound).ranksAll hflattened⟩

/-- Whatever was requested, the symbol tables take just what there is room for, and scopes
are numbered from zero on in the order in which they were created. -/
theorem serve_withinCapacity (requests : List Request) :
    (serve {} requests).WithinCapacity ∧
      created {} requests = numbers (serve {} requests).size := by
  have hempty : OwnsSymbols {} := by
    intro index scope hscope
    simp [ScopeStore.scope] at hscope
  constructor
  · exact (maintained_serve requests).withinCapacity
      (Maintained.empty.ownsSymbols_serve hempty requests)
  · have hcreated := Maintained.empty.numbers_created requests
    rwa [show numbers (size {}) = [] from rfl, List.nil_append] at hcreated

/-! ## The limits are reached -/

theorem serve_append (first second : List Request) :
    store.serve (first ++ second) = (store.serve first).serve second :=
  List.foldl_append

/-- As many scopes as can be numbered can be created. -/
theorem exists_serve_size {count : Nat} (hcount : count ≤ ScopeIndex.capacity) :
    ∃ requests, (serve {} requests).size = count := by
  induction count with
  | zero => exact ⟨[], rfl⟩
  | succ count ih =>
      obtain ⟨requests, hsize⟩ := ih (Nat.le_of_succ_le hcount)
      have hcreate := (maintained_serve requests).create_eq
      rw [hsize, if_pos (Nat.lt_of_succ_le hcount)] at hcreate
      obtain ⟨later, hdone, -, hlater, -⟩ := hcreate
      refine ⟨requests ++ [.create], ?_⟩
      rw [serve_append, serve, List.foldl_cons, List.foldl_nil, Request.after, hdone]
      exact hlater

/-- As many names as can be ranked can be entered in one scope. -/
theorem exists_serve_scope_size {count : Nat} (hcount : count ≤ Scope.capacity) :
    ∃ requests scope, (serve {} requests).scope ⟨0⟩ = .ok scope ∧ scope.size = count := by
  induction count with
  | zero => exact ⟨[.create], { index := ⟨0⟩ }, rfl, rfl⟩
  | succ count ih =>
      obtain ⟨requests, scope, hscope, hsize⟩ := ih (Nat.le_of_succ_le hcount)
      have hstore := maintained_serve requests
      -- Some name is not among those entered so far.
      obtain ⟨name, hname⟩ := Infinite.exists_notMem_finset scope.names.nameList.toFinset
      have hsearch : scope.search name = none := by
        rw [List.mem_toFinset, (hstore.scope_maintained hscope).wellFormed.ordered.mem_nameList_iff,
          Bool.not_eq_true, Option.isSome_eq_false_iff, Option.isNone_iff_eq_none] at hname
        exact hname
      have henter := hstore.enter_of_new hscope hsearch {}
      rw [hsize, if_pos (Nat.lt_of_succ_le hcount)] at henter
      obtain ⟨later, grown, hdone, hgrown, hlater, -⟩ := henter
      refine ⟨requests ++ [.enter ⟨0⟩ name {}], grown, ?_, hlater⟩
      rw [serve_append, serve, List.foldl_cons, List.foldl_nil, Request.after, hdone]
      exact hgrown

end ScopeStore

end ScopeMachine
