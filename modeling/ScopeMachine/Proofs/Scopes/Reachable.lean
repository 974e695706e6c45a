/-
# Reachable symbol tables

A program's symbol tables come about by creating scopes, entering and looking up
names, filling in what is known about a symbol, and flattening. Whatever the order
of these, every scope stays well formed: a search by name and the numbering of
symbols tell the same story, and the ranks of a flattened scope are those of the
names now in it.
-/

import ScopeMachine.Proofs.Scopes.Order
import ScopeMachine.Scope.Store

namespace ScopeMachine

namespace Scope

/-- What holds of a scope at any time. -/
structure WellFormed (scope : Scope) : Prop where
  ordered : scope.names.Ordered
  counted : scope.names.toList.length = scope.size
  searched : ∀ name entry, scope.search name = some entry ↔
    ∃ symbol, scope.symbol? entry = some symbol ∧ symbol.name = name
  ranked : ∀ order, scope.order = some order → order.toList = scope.names.entries

variable {scope : Scope}

/-- A scope without symbols is well formed. -/
theorem WellFormed.empty (index : ScopeIndex) : WellFormed { index } where
  ordered := .nil
  counted := rfl
  searched := by simp [search, NameTree.find?, symbol?]
  ranked := by simp

theorem symbol?_modifySymbol (entry other : EntryId) (change : Symbol → Symbol) :
    (scope.modifySymbol entry change).symbol? other =
      (scope.symbol? other).map fun symbol => if entry = other then change symbol else symbol := by
  simp only [modifySymbol, symbol?, Array.getElem?_modify]
  by_cases hentry : entry = other
  · simp [hentry]
  · have hval : entry.val ≠ other.val := fun h => hentry (by cases entry; cases other; simp_all)
    simp [hentry, hval]

/-- Changing a symbol that keeps its name keeps a scope well formed. -/
theorem WellFormed.modifySymbol (hscope : scope.WellFormed) (entry : EntryId)
    {change : Symbol → Symbol} (hname : ∀ symbol, (change symbol).name = symbol.name) :
    (scope.modifySymbol entry change).WellFormed where
  ordered := hscope.ordered
  counted := by simpa [Scope.modifySymbol, size] using hscope.counted
  searched := by
    intro name other
    have hsearched := hscope.searched name other
    rw [symbol?_modifySymbol]
    show scope.search name = some other ↔ _
    rw [hsearched]
    cases scope.symbol? other with
    | none => simp
    | some symbol => by_cases hentry : entry = other <;> simp [hentry, hname]
  ranked := hscope.ranked

theorem WellFormed.refer (hscope : scope.WellFormed) (entry : EntryId) (context : Context) :
    (scope.refer entry context).WellFormed := by
  unfold Scope.refer
  split
  · exact hscope.modifySymbol entry fun _ => rfl
  · exact hscope

theorem WellFormed.lookup (hscope : scope.WellFormed) (name : String) (context : Context) :
    (scope.lookup name context).WellFormed := by
  unfold Scope.lookup
  split
  · exact hscope.refer _ context
  · exact hscope

theorem name_newSymbol (name : String) (context : Context) :
    (scope.newSymbol name context).name = name := by
  unfold newSymbol
  dsimp only
  split <;> rfl

/-- Entering a name keeps a scope well formed. -/
theorem WellFormed.enter (hscope : scope.WellFormed) (name : String) (context : Context) :
    (scope.enter name context).WellFormed := by
  unfold Scope.enter
  cases hsearch : scope.search name with
  | some entry => exact hscope.refer entry context
  | none =>
      dsimp only
      rw [newEntry?_eq]
      by_cases hroom : scope.size < capacity
      · rw [if_pos hroom]
        have hordered := hscope.ordered.insert hsearch ⟨scope.size⟩
        have hcounted : (scope.names.insert name ⟨scope.size⟩).toList.length = scope.size + 1 := by
          rw [hscope.ordered.length_toList_insert hsearch, hscope.counted]
        refine ⟨by simpa [push] using hordered, by simpa [push, size] using hcounted, ?_, by simp⟩
        intro wanted entry
        have hold := hscope.searched wanted entry
        unfold Scope.search at hold ⊢
        simp only [push, symbol?, names_unranked, symbols_unranked]
        rw [hscope.ordered.find?_eq_some_iff] at hold
        rw [hordered.find?_eq_some_iff, hscope.ordered.mem_toList_insert hsearch, hold]
        simp only [symbol?, Array.getElem?_push, Prod.mk.injEq]
        obtain ⟨number⟩ := entry
        by_cases hnumber : number = scope.size
        · subst hnumber
          have hnone : scope.symbols[scope.size]? = none := Array.getElem?_size
          have hlast : scope.size = scope.symbols.size := rfl
          simp only [hnone, if_pos hlast, and_true]
          simp [name_newSymbol, eq_comm]
        · have hlast : number ≠ scope.symbols.size := hnumber
          simp [hnumber, hlast]
      · rw [if_neg hroom]
        exact hscope

theorem WellFormed.flatten (hscope : scope.WellFormed) {flattened : Scope}
    (hflattened : scope.flatten = .ok flattened) : flattened.WellFormed := by
  unfold Scope.flatten at hflattened
  split at hflattened <;> cases hflattened
  refine ⟨hscope.ordered, hscope.counted, hscope.searched, ?_⟩
  rintro _ ⟨⟩
  rfl

/-! ## The number of a scope -/

@[simp]
theorem index_refer (entry : EntryId) (context : Context) :
    (scope.refer entry context).index = scope.index := by
  unfold refer
  split <;> rfl

@[simp]
theorem index_lookup (name : String) (context : Context) :
    (scope.lookup name context).index = scope.index := by
  unfold lookup
  split
  · exact index_refer _ context
  · rfl

@[simp]
theorem index_enter (name : String) (context : Context) :
    (scope.enter name context).index = scope.index := by
  unfold enter
  split
  · exact index_refer _ context
  · split
    · exact index_unranked _
    · rfl

theorem index_flatten {flattened : Scope} (hflattened : scope.flatten = .ok flattened) :
    flattened.index = scope.index := by
  unfold flatten at hflattened
  split at hflattened <;> cases hflattened
  rfl

end Scope

namespace ScopeStore

/-- Symbol tables that a program can come to have. What is known about a symbol may
be filled in at any time, but its name and its scope stay. -/
inductive Reachable : ScopeStore → Prop
  | empty : Reachable {}
  | create {store later : ScopeStore} {index : ScopeIndex} (hreachable : Reachable store)
      (hdone : create store = .ok index later) : Reachable later
  | enter {store later : ScopeStore} {index : ScopeIndex} {name : String} {context : Context}
      {entry : EntryId} (hreachable : Reachable store)
      (hdone : enter index name context store = .ok entry later) : Reachable later
  | lookup {store later : ScopeStore} {index : ScopeIndex} {name : String} {context : Context}
      {found : Option EntryId} (hreachable : Reachable store)
      (hdone : lookup index name context store = .ok found later) : Reachable later
  | define {store later : ScopeStore} {ref : SymbolRef} {change : Symbol → Symbol}
      (hname : ∀ symbol, (change symbol).name = symbol.name)
      (hhome : ∀ symbol, (change symbol).home = symbol.home) (hreachable : Reachable store)
      (hdone : modifySymbol ref change store = .ok () later) : Reachable later
  | flatten {store later : ScopeStore} {index : ScopeIndex} (hreachable : Reachable store)
      (hdone : flatten index store = .ok () later) : Reachable later

/-- Every scope is well formed and has the number under which it is found. -/
def WellFormed (store : ScopeStore) : Prop :=
  ∀ (number : Nat) (scope : Scope), store.scopes[number]? = some scope →
    scope.index = ⟨number⟩ ∧ scope.WellFormed

variable {store : ScopeStore}

/-- Changing a scope that keeps its number and stays well formed. -/
theorem WellFormed.modifyScope (hstore : store.WellFormed) (index : ScopeIndex)
    {change : Scope → Scope}
    (hchange : ∀ scope, store.scopes[index.val]? = some scope → scope.WellFormed →
      (change scope).index = scope.index ∧ (change scope).WellFormed) :
    (store.modifyScope index change).WellFormed := by
  intro number scope hscope
  simp only [ScopeStore.modifyScope, Array.getElem?_modify] at hscope
  split at hscope
  · rename_i hnumber
    subst hnumber
    obtain ⟨old, hold, rfl⟩ := Option.map_eq_some_iff.mp hscope
    obtain ⟨hindex, hwell⟩ := hstore _ old hold
    obtain ⟨hkept, hlater⟩ := hchange old hold hwell
    exact ⟨hkept.trans hindex, hlater⟩
  · exact hstore number scope hscope

/-- The scopes of a program stay well formed. -/
theorem Reachable.wellFormed (hreachable : store.Reachable) : store.WellFormed := by
  induction hreachable with
  | empty =>
      intro number scope hscope
      simp at hscope
  | create hreachable hdone ih =>
      unfold ScopeStore.create at hdone
      split at hdone
      · rename_i index hindex
        cases hdone
        intro number scope hscope
        rw [Array.getElem?_push] at hscope
        split at hscope
        · rename_i hlast
          cases hscope
          rw [newIndex?_eq] at hindex
          split at hindex <;> cases hindex
          exact ⟨congrArg ScopeIndex.mk hlast.symm, .empty _⟩
        · exact ih number scope hscope
      · cases hdone
  | enter hreachable hdone ih =>
      unfold ScopeStore.enter at hdone
      split at hdone
      · cases hdone
      · split at hdone <;> cases hdone
        exact ih.modifyScope _ fun scope _ hscope =>
          ⟨Scope.index_enter _ _, hscope.enter _ _⟩
  | lookup hreachable hdone ih =>
      unfold ScopeStore.lookup at hdone
      split at hdone <;> cases hdone
      exact ih.modifyScope _ fun scope _ hscope => ⟨Scope.index_lookup _ _, hscope.lookup _ _⟩
  | define hname hhome hreachable hdone ih =>
      unfold ScopeStore.modifySymbol at hdone
      split at hdone <;> cases hdone
      exact ih.modifyScope _ fun scope _ hscope => ⟨rfl, hscope.modifySymbol _ hname⟩
  | @flatten store later index hreachable hdone ih =>
      unfold ScopeStore.flatten at hdone
      split at hdone
      · cases hdone
      · rename_i flattened hflattened
        cases hdone
        apply ih.modifyScope
        intro scope hscope hwell
        have hflatten : scope.flatten = .ok flattened := by
          simpa [ScopeStore.scope, hscope, bind, Except.bind] using hflattened
        exact ⟨Scope.index_flatten hflatten, hwell.flatten hflatten⟩

end ScopeStore

end ScopeMachine
