/-
# Addresses of symbols

Ranking a scope writes its key order down twice, as the entries by rank and as the rank
of every entry, and a new name takes back both. So addresses and references
lead to each other and back wherever there are addresses at all, and what is refused
says what is missing.
-/

import ScopeMachine.Proofs.Scopes.KeyOrder
import ScopeMachine.Proofs.Scopes.Program

namespace ScopeMachine

namespace Scope

/-- The entries by rank and the ranks by entry tell the same: both are missing, or each
entry stands once in the order, at the place that is its rank. -/
def RanksAgree (scope : Scope) : Prop :=
  if scope.isFlattened then
    ∃ order, scope.keyOrder = .ok order ∧
      order.toList.Perm ((List.range scope.size).map EntryId.mk) ∧
        ∀ entry rank, entry.val < scope.size →
          (scope.rank? entry = some rank ↔ order[rank.val]? = some entry)
  else scope.keyOrder = .error (.notFlattened scope.index) ∧ ∀ entry, scope.rank? entry = none

/-- Two scopes have the same ranks, if any. -/
def SameRanks (first second : Scope) : Prop :=
  first.keyOrder = second.keyOrder ∧ ∀ entry, first.rank? entry = second.rank? entry

variable {scope : Scope} {name : String} {entry : EntryId}

theorem keyOrder_of_not_isFlattened (hflattened : ¬ scope.isFlattened) :
    scope.keyOrder = .error (.notFlattened scope.index) := by
  have horder : scope.order = none := by simpa [isFlattened] using hflattened
  rw [keyOrder, horder]

theorem Maintained.rank?_of_not_isFlattened (hscope : scope.Maintained)
    (hflattened : ¬ scope.isFlattened) (entry : EntryId) : scope.rank? entry = none :=
  hscope.void (by simpa [isFlattened] using hflattened) entry

/-- In a ranked scope, the rank of an entry is its place in key order. -/
theorem Maintained.rank?_eq_idxOf (hscope : scope.Maintained) (hflattened : scope.isFlattened)
    (hentry : entry.val < scope.size) :
    scope.rank? entry = some ⟨scope.names.entries.idxOf entry⟩ := by
  have hsymbol : scope.symbol? entry = some scope.symbols[entry.val] :=
    Array.getElem?_eq_getElem hentry
  rw [hscope.rank?_eq hflattened hsymbol, hscope.wellFormed.idxOf_entries hsymbol]

theorem Maintained.rank?_eq_some_iff (hscope : scope.Maintained)
    (hflattened : scope.isFlattened) (hentry : entry.val < scope.size) {rank : Rank} :
    scope.rank? entry = some rank ↔ scope.names.entries[rank.val]? = some entry := by
  have hmem := hscope.wellFormed.mem_entries_iff.mpr hentry
  rw [hscope.rank?_eq_idxOf hflattened hentry]
  constructor
  · rintro ⟨⟩
    exact List.getElem?_idxOf hmem
  · intro hplace
    obtain ⟨hless, rfl⟩ := List.getElem?_eq_some_iff.mp hplace
    rw [hscope.wellFormed.nodup_entries.idxOf_getElem]

theorem Maintained.ranksAgree (hscope : scope.Maintained) : scope.RanksAgree := by
  unfold RanksAgree
  split
  · rename_i hflattened
    refine ⟨_, hscope.keyOrder_eq hflattened, hscope.wellFormed.perm_entries, ?_⟩
    intro entry rank hentry
    rw [hscope.rank?_eq_some_iff hflattened hentry, List.getElem?_toArray]
  · rename_i hflattened
    exact ⟨keyOrder_of_not_isFlattened hflattened, hscope.rank?_of_not_isFlattened hflattened⟩

/-- A name that is there is referred to, which changes no rank. -/
theorem sameRanks_refer (entry : EntryId) (context : Context) :
    (scope.refer entry context).SameRanks scope := by
  constructor
  · rw [keyOrder, keyOrder, order_refer, index_refer]
  · exact rank?_refer

end Scope

namespace ScopeStore

/-- References and addresses of symbols are consistent. -/
structure Addressed (store : ScopeStore) : Prop where
  /-- The entries by rank and the ranks by entry tell the same. -/
  ranked : ∀ index scope, store.scope index = .ok scope → scope.RanksAgree
  /-- A new name makes both void, in its own scope only. -/
  voided : ∀ index name context scope entry later, store.scope index = .ok scope →
    scope.search name = none → enter index name context store = .ok entry later →
      (∃ grown, later.scope index = .ok grown ∧
        grown.keyOrder = .error (.notFlattened index) ∧ ∀ other, grown.rank? other = none) ∧
      ∀ other, other ≠ index → later.scope other = store.scope other
  /-- A name that is there can be entered and looked up, and both keep the ranks. -/
  preserved : ∀ index name context scope entry, store.scope index = .ok scope →
    scope.search name = some entry →
      (∃ later kept, enter index name context store = .ok entry later ∧
        later.scope index = .ok kept ∧ kept.SameRanks scope) ∧
      ∃ later kept, lookup index name context store = .ok (some entry) later ∧
        later.scope index = .ok kept ∧ kept.SameRanks scope
  /-- Addresses and references lead to each other. -/
  roundTrip : ∀ addr ref, store.resolve addr = .ok ref ↔ store.address ref = .ok addr
  /-- An address is refused where its scope is not ranked, and where there is no such
  scope or no such rank. -/
  unresolved : ∀ addr refusal, store.resolve addr = .error refusal ↔
    (refusal = .notFlattened addr.scope ∧
      ∃ scope, store.scope addr.scope = .ok scope ∧ ¬ scope.isFlattened) ∨
    (refusal = .badAddress addr ∧
      ∀ scope, store.scope addr.scope = .ok scope →
        scope.isFlattened ∧ scope.size ≤ addr.rank.val)
  /-- A symbol has no address just where its scope is not ranked. -/
  unaddressed : ∀ ref symbol refusal, store.symbol ref = .ok symbol →
    (store.address ref = .error refusal ↔ refusal = .notFlattened ref.scope ∧
      ∃ scope, store.scope ref.scope = .ok scope ∧ ¬ scope.isFlattened)
  /-- Behind an address there is a symbol. -/
  found : ∀ addr ref, store.resolve addr = .ok ref → ∃ symbol, store.symbol ref = .ok symbol

variable {store : ScopeStore} {ref : SymbolRef} {addr : SymbolAddr}

@[simp]
theorem size_modifyScope (index : ScopeIndex) (change : Scope → Scope) :
    (store.modifyScope index change).size = store.size := by
  simp [size, modifyScope]

/-- The scope of a number after the scopes of this and other numbers changed. -/
theorem scope_modifyScope (index other : ScopeIndex) (change : Scope → Scope) :
    (store.modifyScope index change).scope other =
      if other = index then (store.scope other).map change else store.scope other := by
  simp only [ScopeStore.scope, ScopeStore.modifyScope, Array.getElem?_modify]
  by_cases hsame : other = index
  · subst hsame
    cases store.scopes[other.val]? <;> simp [Except.map]
  · have hval : index.val ≠ other.val := fun hval => hsame (congrArg ScopeIndex.mk hval.symm)
    simp [hsame, hval]

theorem scope_modifyScope_self {index : ScopeIndex} {scope : Scope}
    (hscope : store.scope index = .ok scope) (change : Scope → Scope) :
    (store.modifyScope index change).scope index = .ok (change scope) := by
  rw [scope_modifyScope, if_pos rfl, hscope]
  rfl

/-- A symbol that is there has the rank of its entry for an address. -/
theorem address_of_symbol {symbol : Symbol} (hsymbol : store.symbol ref = .ok symbol)
    {scope : Scope} (hscope : store.scope ref.scope = .ok scope) :
    store.address ref = match scope.rank? ref.entry with
      | some rank => .ok ⟨ref.scope, rank⟩
      | none => .error (.notFlattened ref.scope) := by
  simp only [address, hsymbol, hscope, bind, Except.bind]
  cases scope.rank? ref.entry <;> rfl

theorem resolve_of_missing {refusal : ScopeError}
    (hscope : store.scope addr.scope = .error refusal) :
    store.resolve addr = .error (.badAddress addr) := by
  unfold ScopeStore.scope at hscope
  unfold resolve
  cases hfound : store.scopes[addr.scope.val]? with
  | none => rfl
  | some scope =>
      rw [hfound] at hscope
      cases hscope

namespace Maintained

variable (hstore : store.Maintained)

include hstore

theorem index_eq {index : ScopeIndex} {scope : Scope} (hscope : store.scope index = .ok scope) :
    scope.index = index :=
  (hstore _ scope (scope_eq_ok_iff.mp hscope)).1

theorem scope_maintained {index : ScopeIndex} {scope : Scope}
    (hscope : store.scope index = .ok scope) : scope.Maintained :=
  (hstore _ scope (scope_eq_ok_iff.mp hscope)).2

/-! ## Addresses that are resolved -/

theorem resolve_of_not_isFlattened {scope : Scope} (hscope : store.scope addr.scope = .ok scope)
    (hflattened : ¬ scope.isFlattened) :
    store.resolve addr = .error (.notFlattened addr.scope) := by
  simp only [resolve, scope_eq_ok_iff.mp hscope, Scope.entryAt,
    Scope.keyOrder_of_not_isFlattened hflattened, hstore.index_eq hscope]
  rfl

theorem resolve_of_isFlattened {scope : Scope} (hscope : store.scope addr.scope = .ok scope)
    (hflattened : scope.isFlattened) :
    store.resolve addr = match scope.names.entries[addr.rank.val]? with
      | some entry => .ok ⟨addr.scope, entry⟩
      | none => .error (.badAddress addr) := by
  have hindex := hstore.index_eq hscope
  simp only [resolve, scope_eq_ok_iff.mp hscope, Scope.entryAt,
    (hstore.scope_maintained hscope).keyOrder_eq hflattened, bind, Except.bind,
    List.getElem?_toArray, hindex]
  cases scope.names.entries[addr.rank.val]? with
  | none => rfl
  | some entry =>
      simp only [Scope.ref, hindex]
      rfl

theorem resolve_eq_ok_iff : store.resolve addr = .ok ref ↔
    ref.scope = addr.scope ∧ ∃ scope, store.scope addr.scope = .ok scope ∧ scope.isFlattened ∧
      scope.names.entries[addr.rank.val]? = some ref.entry := by
  obtain ⟨index, entry⟩ := ref
  cases hscope : store.scope addr.scope with
  | error refusal => simp [resolve_of_missing hscope]
  | ok scope =>
      by_cases hflattened : scope.isFlattened
      · rw [hstore.resolve_of_isFlattened hscope hflattened]
        constructor
        · intro hresolve
          cases hentry : scope.names.entries[addr.rank.val]? <;> rw [hentry] at hresolve <;>
            cases hresolve
          exact ⟨rfl, scope, rfl, hflattened, hentry⟩
        · rintro ⟨rfl, _, ⟨⟩, -, hentry⟩
          rw [hentry]
      · simp [hstore.resolve_of_not_isFlattened hscope hflattened, hflattened]

/-- Behind an address there is a symbol. -/
theorem exists_symbol_of_resolve (hresolve : store.resolve addr = .ok ref) :
    ∃ symbol, store.symbol ref = .ok symbol := by
  obtain ⟨hindex, scope, hscope, -, hentry⟩ := hstore.resolve_eq_ok_iff.mp hresolve
  have hless := (hstore.scope_maintained hscope).wellFormed.mem_entries_iff.mp
    (List.mem_of_getElem? hentry)
  refine ⟨scope.symbols[ref.entry.val], symbol_eq_ok_iff.mpr ⟨scope, ?_, ?_⟩⟩
  · rw [hindex]
    exact scope_eq_ok_iff.mp hscope
  · exact Array.getElem?_eq_getElem hless

theorem address_eq_ok_iff : store.address ref = .ok addr ↔
    ref.scope = addr.scope ∧ ∃ scope, store.scope addr.scope = .ok scope ∧ scope.isFlattened ∧
      scope.names.entries[addr.rank.val]? = some ref.entry := by
  obtain ⟨index, rank⟩ := addr
  constructor
  · intro haddress
    cases hsymbol : store.symbol ref with
    | error refusal =>
        simp only [address, hsymbol, bind, Except.bind] at haddress
        cases haddress
    | ok symbol =>
        obtain ⟨scope, hscope, hentry⟩ := symbol_eq_ok_iff.mp hsymbol
        have hfound := scope_eq_ok_iff.mpr hscope
        have hless := (Array.getElem?_eq_some_iff.mp hentry).1
        rw [address_of_symbol hsymbol hfound] at haddress
        by_cases hflattened : scope.isFlattened
        · cases hrank : scope.rank? ref.entry with
          | none =>
              rw [hrank] at haddress
              cases haddress
          | some found =>
              rw [hrank] at haddress
              cases haddress
              refine ⟨rfl, scope, hfound, hflattened, ?_⟩
              rwa [← (hstore.scope_maintained hfound).rank?_eq_some_iff hflattened hless]
        · rw [(hstore.scope_maintained hfound).rank?_of_not_isFlattened hflattened] at haddress
          cases haddress
  · rintro ⟨rfl, scope, hscope, hflattened, hentry⟩
    have hmaintained := hstore.scope_maintained hscope
    have hless := hmaintained.wellFormed.mem_entries_iff.mp (List.mem_of_getElem? hentry)
    have hsymbol : store.symbol ref = .ok scope.symbols[ref.entry.val] :=
      symbol_eq_ok_iff.mpr ⟨scope, scope_eq_ok_iff.mp hscope, Array.getElem?_eq_getElem hless⟩
    rw [address_of_symbol hsymbol hscope,
      (hmaintained.rank?_eq_some_iff hflattened hless).mpr hentry]

/-! ## Addresses that are refused -/

theorem resolve_eq_error_iff {refusal : ScopeError} : store.resolve addr = .error refusal ↔
    (refusal = .notFlattened addr.scope ∧
      ∃ scope, store.scope addr.scope = .ok scope ∧ ¬ scope.isFlattened) ∨
    (refusal = .badAddress addr ∧
      ∀ scope, store.scope addr.scope = .ok scope →
        scope.isFlattened ∧ scope.size ≤ addr.rank.val) := by
  cases hscope : store.scope addr.scope with
  | error missing => simp [resolve_of_missing hscope, @eq_comm _ _ refusal]
  | ok scope =>
      by_cases hflattened : scope.isFlattened
      · have hlength := (hstore.scope_maintained hscope).wellFormed.length_entries
        have hbeyond : scope.names.entries[addr.rank.val]? = none ↔ scope.size ≤ addr.rank.val := by
          rw [List.getElem?_eq_none_iff, hlength]
        rw [hstore.resolve_of_isFlattened hscope hflattened]
        cases hentry : scope.names.entries[addr.rank.val]? with
        | none => simp [hflattened, hbeyond.mp hentry, @eq_comm _ _ refusal]
        | some found =>
            have hwithin : ¬ scope.size ≤ addr.rank.val := by simp [← hbeyond, hentry]
            simp [hflattened, hwithin]
      · simp [hstore.resolve_of_not_isFlattened hscope hflattened, hflattened, @eq_comm _ _ refusal]

theorem address_eq_error_iff {symbol : Symbol} {refusal : ScopeError}
    (hsymbol : store.symbol ref = .ok symbol) :
    store.address ref = .error refusal ↔ refusal = .notFlattened ref.scope ∧
      ∃ scope, store.scope ref.scope = .ok scope ∧ ¬ scope.isFlattened := by
  obtain ⟨scope, hfound, hentry⟩ := symbol_eq_ok_iff.mp hsymbol
  have hscope := scope_eq_ok_iff.mpr hfound
  have hless := (Array.getElem?_eq_some_iff.mp hentry).1
  rw [address_of_symbol hsymbol hscope]
  by_cases hflattened : scope.isFlattened
  · rw [(hstore.scope_maintained hscope).rank?_eq_idxOf hflattened hless]
    simp [hscope, hflattened]
  · rw [(hstore.scope_maintained hscope).rank?_of_not_isFlattened hflattened]
    simp [hscope, hflattened, @eq_comm _ _ refusal]

/-- The symbol tables of a program address their symbols consistently. -/
theorem addressed : store.Addressed where
  ranked index scope hscope := (hstore.scope_maintained hscope).ranksAgree
  voided := by
    intro index name context scope entry later hscope hsearch hdone
    have hindex := hstore.index_eq hscope
    simp only [enter, hscope, Scope.admission_of_none hsearch] at hdone
    split at hdone <;> cases hdone
    rename_i hadmission
    split at hadmission <;> cases hadmission
    rename_i hroom
    obtain ⟨horder, hranks⟩ :=
      (hstore.scope_maintained hscope).enter_void hsearch hroom context
    constructor
    · refine ⟨scope.enter name context, scope_modifyScope_self hscope _, ?_, hranks⟩
      rw [Scope.keyOrder, horder, Scope.index_enter, hindex]
    · intro other hother
      rw [scope_modifyScope, if_neg hother]
  preserved := by
    intro index name context scope entry hscope hsearch
    constructor
    · refine ⟨store.modifyScope index (·.enter name context), _, ?_,
        scope_modifyScope_self hscope _, ?_⟩
      · simp only [enter, hscope, Scope.admission_of_some hsearch]
      · rw [Scope.enter_of_some hsearch]
        exact Scope.sameRanks_refer entry context
    · refine ⟨store.modifyScope index (·.lookup name context), _, ?_,
        scope_modifyScope_self hscope _, ?_⟩
      · simp only [lookup, hscope, hsearch]
      · simp only [Scope.lookup, hsearch]
        exact Scope.sameRanks_refer entry context
  roundTrip addr ref := by rw [hstore.resolve_eq_ok_iff, hstore.address_eq_ok_iff]
  unresolved _ _ := hstore.resolve_eq_error_iff
  unaddressed _ _ _ hsymbol := hstore.address_eq_error_iff hsymbol
  found _ _ hresolve := hstore.exists_symbol_of_resolve hresolve

end Maintained

end ScopeStore

end ScopeMachine
