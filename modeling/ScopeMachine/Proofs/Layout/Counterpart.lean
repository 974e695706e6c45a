/-
# Counterparts in another layout

Two programs may have the same scopes with the same names and still number their
symbols differently, because the names were entered in another order. Every symbol
of the one then has a counterpart in the other, the symbol of the same name in the
same scope. A reference that leads nowhere is its own counterpart. Counterparts
are mutual, and an address leads to counterparts in two flattened programs.
-/

import ScopeMachine.Proofs.Agreement
import ScopeMachine.Proofs.Scopes.Reachable

namespace ScopeMachine

namespace Scope

/-- What an address leads to follows from the names alone, but for the number of the
entry that the name has. -/
theorem WellFormed.entryAt_eq {scope : Scope} (hscope : scope.WellFormed)
    (hflattened : scope.isFlattened) (rank : Rank) :
    scope.entryAt rank =
      ((scope.names.nameList[rank.val]?).bind scope.search).elim
        (.error (.badAddress ⟨scope.index, rank⟩)) .ok := by
  obtain ⟨order, hsome⟩ := Option.isSome_iff_exists.mp hflattened
  have horder := hscope.ranked order hsome
  have hentry : order[rank.val]? = (scope.names.toList[rank.val]?).map (·.2) := by
    rw [← Array.getElem?_toList, horder, NameTree.entries, List.getElem?_map]
  simp only [entryAt, keyOrder, hsome, hentry, NameTree.nameList, List.getElem?_map, bind,
    Except.bind]
  cases hfound : scope.names.toList[rank.val]? with
  | none => rfl
  | some found =>
      have hsearch : scope.search found.1 = some found.2 :=
        hscope.ordered.find?_eq_some_iff.mpr (List.mem_of_getElem? hfound)
      simp only [Option.map_some, Option.bind_some, hsearch]
      rfl

end Scope

namespace ScopeStore

/-- The symbol of a name in a scope. -/
def named? (store : ScopeStore) (index : ScopeIndex) (name : String) : Option SymbolRef := do
  let scope ← store.scopes[index.val]?
  let entry ← scope.search name
  return ⟨index, entry⟩

/-- The reference in `second` to the symbol that has the same name in the same scope
as the symbol behind a reference in `first`. -/
def counterpart (first second : ScopeStore) (ref : SymbolRef) : SymbolRef :=
  match first.symbol ref with
  | .ok symbol => (second.named? ref.scope symbol.name).getD ref
  | .error _ => ref

/-- The same scopes with the same names. -/
structure SameNames (first second : ScopeStore) : Prop where
  size : first.size = second.size
  names : ∀ (number : Nat) (scope scope' : Scope), first.scopes[number]? = some scope →
    second.scopes[number]? = some scope' →
    ∀ name, (scope.search name).isSome = (scope'.search name).isSome

/-- Every scope is flattened. -/
def Flattened (store : ScopeStore) : Prop :=
  ∀ (number : Nat) (scope : Scope), store.scopes[number]? = some scope → scope.isFlattened

variable {first second : ScopeStore}

theorem SameNames.exists_scope (hnames : SameNames first second) {number : Nat} {scope : Scope}
    (hscope : first.scopes[number]? = some scope) :
    ∃ scope', second.scopes[number]? = some scope' := by
  have hnumber := (Array.getElem?_eq_some_iff.mp hscope).1
  have hsize : first.scopes.size = second.scopes.size := hnames.size
  exact ⟨_, Array.getElem?_eq_getElem (hsize ▸ hnumber)⟩

theorem SameNames.getElem?_eq_none (hnames : SameNames first second) {number : Nat}
    (hnone : first.scopes[number]? = none) : second.scopes[number]? = none := by
  rw [Array.getElem?_eq_none_iff] at hnone ⊢
  have hsize : first.scopes.size = second.scopes.size := hnames.size
  omega

/-- In scopes of the same number the names come in the same sequence. -/
theorem SameNames.nameList_eq (hnames : SameNames first second) (hfirst : first.WellFormed)
    (hsecond : second.WellFormed) {number : Nat} {scope scope' : Scope}
    (hscope : first.scopes[number]? = some scope)
    (hscope' : second.scopes[number]? = some scope') :
    scope.names.nameList = scope'.names.nameList :=
  (hfirst number scope hscope).2.ordered.nameList_eq (hsecond number scope' hscope').2.ordered
    (hnames.names number scope scope' hscope hscope')

variable {ref : SymbolRef} {symbol : Symbol}

theorem named?_eq {store : ScopeStore} {index : ScopeIndex} {scope : Scope} {name : String}
    {entry : EntryId} (hscope : store.scopes[index.val]? = some scope)
    (hsearch : scope.search name = some entry) : store.named? index name = some ⟨index, entry⟩ := by
  simp [named?, hscope, hsearch]

/-- Searching for the name of a symbol leads back to the symbol. -/
theorem WellFormed.named?_name {store : ScopeStore} (hstore : store.WellFormed)
    (hsymbol : store.symbol ref = .ok symbol) :
    store.named? ref.scope symbol.name = some ref := by
  obtain ⟨scope, hscope, hentry⟩ := symbol_eq_ok_iff.mp hsymbol
  exact named?_eq hscope (((hstore _ scope hscope).2.searched symbol.name ref.entry).mpr
    ⟨symbol, hentry, rfl⟩)

theorem counterpart_of_error {e : ScopeError} (herror : first.symbol ref = .error e) :
    counterpart first second ref = ref := by
  rw [counterpart, herror]

theorem counterpart_of_named {other : SymbolRef} (hsymbol : first.symbol ref = .ok symbol)
    (hnamed : second.named? ref.scope symbol.name = some other) :
    counterpart first second ref = other := by
  rw [counterpart, hsymbol]
  simp only [hnamed, Option.getD_some]

@[simp]
theorem scope_counterpart : (counterpart first second ref).scope = ref.scope := by
  unfold counterpart
  cases first.symbol ref with
  | error e => rfl
  | ok symbol =>
      dsimp only
      unfold named?
      cases second.scopes[ref.scope.val]? with
      | none => rfl
      | some scope => cases hsearch : scope.search symbol.name <;> simp [hsearch]

/-- The counterpart of a symbol is a symbol of the same name. -/
theorem SameNames.symbol_counterpart (hnames : SameNames first second)
    (hfirst : first.WellFormed) (hsecond : second.WellFormed)
    (hsymbol : first.symbol ref = .ok symbol) :
    ∃ other, second.symbol (counterpart first second ref) = .ok other ∧
      other.name = symbol.name := by
  obtain ⟨scope, hscope, hentry⟩ := symbol_eq_ok_iff.mp hsymbol
  obtain ⟨scope', hscope'⟩ := hnames.exists_scope hscope
  have hsearch := ((hfirst _ scope hscope).2.searched symbol.name ref.entry).mpr
    ⟨symbol, hentry, rfl⟩
  have hsome := hnames.names _ scope scope' hscope hscope' symbol.name
  rw [hsearch] at hsome
  obtain ⟨entry', hsearch'⟩ := Option.isSome_iff_exists.mp hsome.symm
  obtain ⟨other, hother, hname⟩ := ((hsecond _ scope' hscope').2.searched _ _).mp hsearch'
  rw [counterpart_of_named hsymbol (named?_eq hscope' hsearch')]
  exact ⟨other, symbol_eq_ok_iff.mpr ⟨scope', hscope', hother⟩, hname⟩

/-- A reference that leads nowhere leads nowhere in the other layout either. -/
theorem SameNames.symbol_eq_error (hnames : SameNames first second) (hfirst : first.WellFormed)
    (hsecond : second.WellFormed) {e : ScopeError} (herror : first.symbol ref = .error e) :
    second.symbol ref = .error e := by
  unfold ScopeStore.symbol ScopeStore.scope at herror ⊢
  cases hscope : first.scopes[ref.scope.val]? with
  | none =>
      rw [hscope] at herror
      rw [hnames.getElem?_eq_none hscope]
      exact herror
  | some scope =>
      obtain ⟨scope', hscope'⟩ := hnames.exists_scope hscope
      have hlists := hnames.nameList_eq hfirst hsecond hscope hscope'
      have hlengths : scope.names.toList.length = scope'.names.toList.length := by
        simpa [NameTree.nameList] using congrArg List.length hlists
      rw [(hfirst _ scope hscope).2.counted, (hsecond _ scope' hscope').2.counted] at hlengths
      simp only [hscope, hscope', Scope.symbol?, bind, Except.bind] at herror ⊢
      cases hentry : scope.symbols[ref.entry.val]? with
      | some symbol =>
          rw [hentry] at herror
          cases herror
      | none =>
          rw [hentry] at herror
          have hbeyond := Array.getElem?_eq_none_iff.mp hentry
          have hentry' : scope'.symbols[ref.entry.val]? = none := by
            rw [Array.getElem?_eq_none_iff]
            unfold Scope.size at hlengths
            omega
          rw [hentry']
          exact herror

/-- The counterpart of a counterpart is the symbol itself. -/
theorem SameNames.counterpart_counterpart (hnames : SameNames first second)
    (hfirst : first.WellFormed) (hsecond : second.WellFormed) (ref : SymbolRef) :
    counterpart second first (counterpart first second ref) = ref := by
  cases hsymbol : first.symbol ref with
  | error e =>
      rw [counterpart_of_error hsymbol,
        counterpart_of_error (hnames.symbol_eq_error hfirst hsecond hsymbol)]
  | ok symbol =>
      obtain ⟨other, hother, hname⟩ := hnames.symbol_counterpart hfirst hsecond hsymbol
      apply counterpart_of_named hother
      rw [scope_counterpart, hname]
      exact hfirst.named?_name hsymbol

theorem SameNames.counterpart_injective (hnames : SameNames first second)
    (hfirst : first.WellFormed) (hsecond : second.WellFormed) :
    Function.Injective (counterpart first second) :=
  Function.LeftInverse.injective (hnames.counterpart_counterpart hfirst hsecond)

/-- In flattened programs an address leads to counterparts. -/
theorem SameNames.resolve_counterpart (hnames : SameNames first second)
    (hfirst : first.WellFormed) (hsecond : second.WellFormed) (hflat : first.Flattened)
    (hflat' : second.Flattened) (addr : SymbolAddr) :
    second.resolve addr = (first.resolve addr).map (counterpart first second) := by
  unfold resolve
  cases hscope : first.scopes[addr.scope.val]? with
  | none =>
      rw [hnames.getElem?_eq_none hscope]
      rfl
  | some scope =>
      obtain ⟨scope', hscope'⟩ := hnames.exists_scope hscope
      obtain ⟨hindex, hwell⟩ := hfirst _ scope hscope
      obtain ⟨hindex', hwell'⟩ := hsecond _ scope' hscope'
      have hlists := hnames.nameList_eq hfirst hsecond hscope hscope'
      rw [hscope']
      dsimp only
      rw [hwell.entryAt_eq (hflat _ scope hscope), hwell'.entryAt_eq (hflat' _ scope' hscope'),
        ← hlists, hindex, hindex']
      cases hname : scope.names.nameList[addr.rank.val]? with
      | none => rfl
      | some name =>
          have hmem := List.mem_of_getElem? hname
          obtain ⟨entry, hsearch⟩ :=
            Option.isSome_iff_exists.mp (hwell.ordered.mem_nameList_iff.mp hmem)
          rw [hlists] at hmem
          obtain ⟨entry', hsearch'⟩ :=
            Option.isSome_iff_exists.mp (hwell'.ordered.mem_nameList_iff.mp hmem)
          obtain ⟨symbol, hentry, rfl⟩ := (hwell.searched name entry).mp hsearch
          have hsymbol : first.symbol ⟨addr.scope, entry⟩ = .ok symbol :=
            symbol_eq_ok_iff.mpr ⟨scope, hscope, hentry⟩
          have hcounterpart : counterpart first second ⟨addr.scope, entry⟩ = ⟨addr.scope, entry'⟩ :=
            counterpart_of_named hsymbol (named?_eq hscope' hsearch')
          change scope.search symbol.name = some entry at hsearch
          change scope'.search symbol.name = some entry' at hsearch'
          simp only [Option.bind_some, hsearch, hsearch', Option.elim_some, bind, Except.bind,
            pure, Except.pure, Except.map, Scope.ref, hindex, hindex', hcounterpart]

end ScopeStore

end ScopeMachine
