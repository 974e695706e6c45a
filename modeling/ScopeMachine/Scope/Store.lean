/-
# The symbol tables of a program

The store holds every scope of a program, numbered in the order of creation. An
operation either does its work or refuses and leaves the store as it was, and
compiled code reaches its symbols through the store by address.
-/

import ScopeMachine.Scope.Basic

namespace ScopeMachine

/-- Every scope of a program. -/
structure ScopeStore where
  /-- The scopes in the order of creation. -/
  scopes : Array Scope := #[]
deriving DecidableEq

/-- Work on the symbol tables that may be refused. -/
abbrev ScopeM := EStateM ScopeError ScopeStore

namespace ScopeStore

/-- The number of scopes. -/
def size (store : ScopeStore) : Nat :=
  store.scopes.size

/-- The scope of a number. -/
def scope (store : ScopeStore) (index : ScopeIndex) : Except ScopeError Scope :=
  match store.scopes[index.val]? with
  | some scope => .ok scope
  | none => .error (.unknownScope index)

/-- The symbol of a reference. -/
def symbol (store : ScopeStore) (ref : SymbolRef) : Except ScopeError Symbol := do
  let scope ← store.scope ref.scope
  match scope.symbol? ref.entry with
  | some symbol => return symbol
  | none => .error (.unknownSymbol ref)

/-- A reference leads to a symbol by the scope and the entry that it names. -/
theorem symbol_eq_ok_iff {store : ScopeStore} {ref : SymbolRef} {symbol : Symbol} :
    store.symbol ref = .ok symbol ↔
      ∃ scope, store.scopes[ref.scope.val]? = some scope ∧
        scope.symbol? ref.entry = some symbol := by
  simp only [ScopeStore.symbol, ScopeStore.scope]
  cases store.scopes[ref.scope.val]? with
  | none => simp [bind, Except.bind]
  | some scope =>
    cases hentry : scope.symbol? ref.entry with
    | none => simp [bind, Except.bind, hentry]
    | some found => simp [bind, Except.bind, hentry, pure, Except.pure]

/-- What holds of all symbols in all scopes holds of the symbol of a reference. -/
theorem symbol_of_all {store : ScopeStore} {holds : Symbol → Prop}
    (hall : ∀ scope ∈ store.scopes.toList, ∀ symbol ∈ scope.symbols.toList, holds symbol)
    {ref : SymbolRef} {symbol : Symbol} (hsymbol : store.symbol ref = .ok symbol) :
    holds symbol := by
  obtain ⟨scope, hscope, hentry⟩ := symbol_eq_ok_iff.mp hsymbol
  exact hall scope (Array.mem_of_getElem? hscope).val symbol (Array.mem_of_getElem? hentry).val

/-- The reference behind an address. -/
def resolve (store : ScopeStore) (addr : SymbolAddr) : Except ScopeError SymbolRef :=
  match store.scopes[addr.scope.val]? with
  | none => .error (.badAddress addr)
  | some scope => do
    let entry ← scope.entryAt addr.rank
    return scope.ref entry

/-- The address of a symbol; its scope has to be flattened. -/
def address (store : ScopeStore) (ref : SymbolRef) : Except ScopeError SymbolAddr := do
  let _ ← store.symbol ref
  let scope ← store.scope ref.scope
  match scope.rank? ref.entry with
  | some rank => return ⟨ref.scope, rank⟩
  | none => .error (.notFlattened ref.scope)

/-- Change the scope of a number. -/
def modifyScope (store : ScopeStore) (index : ScopeIndex) (change : Scope → Scope) :
    ScopeStore :=
  { store with scopes := store.scopes.modify index.val change }

/-- How many scopes a program can have: as many as can be numbered. -/
def capacity : Nat := ScopeIndex.capacity

/-- The number of the next new scope, if it can be written and there is room. -/
def newIndex? (store : ScopeStore) : Option ScopeIndex :=
  (ScopeIndex.ofNat? store.size).filter fun _ => store.size < capacity

/-- Where there is a number, there is room. -/
theorem newIndex?_eq (store : ScopeStore) :
    store.newIndex? = if store.size < ScopeIndex.capacity then some ⟨store.size⟩ else none := by
  unfold newIndex? ScopeIndex.ofNat?
  by_cases hroom : store.size < ScopeIndex.capacity
  · simp [hroom, capacity]
  · simp [hroom]

/-- Add a scope, unless all numbers are taken. -/
def create : ScopeM ScopeIndex := fun store =>
  match store.newIndex? with
  | some index => .ok index { store with scopes := store.scopes.push { index } }
  | none => .error (.tooManyScopes capacity) store

/-- Add scopes one after the other, and answer the last; `last` if there are none
to add. -/
def createMany (last : Option ScopeIndex) : (count : Nat) → ScopeM (Option ScopeIndex)
  | 0 => return last
  | count + 1 => do
    let index ← create
    createMany (some index) count

/-- Look a name up and record the reference. -/
def lookup (index : ScopeIndex) (name : String) (context : Context) :
    ScopeM (Option EntryId) := fun store =>
  match store.scope index with
  | .error refusal => .error refusal store
  | .ok scope =>
    let found := scope.search name
    .ok found (store.modifyScope index (·.lookup name context))

/-- Enter a name and answer its entry. -/
def enter (index : ScopeIndex) (name : String) (context : Context) : ScopeM EntryId :=
  fun store =>
    match store.scope index with
    | .error refusal => .error refusal store
    | .ok scope =>
      match scope.admission name with
      | .error refusal => .error refusal store
      | .ok entry => .ok entry (store.modifyScope index (·.enter name context))

/-- Change the symbol of a reference. -/
def modifySymbol (ref : SymbolRef) (change : Symbol → Symbol) : ScopeM Unit := fun store =>
  match store.symbol ref with
  | .error refusal => .error refusal store
  | .ok _ => .ok () (store.modifyScope ref.scope (·.modifySymbol ref.entry change))

/-- Rank the symbols of a scope. -/
def flatten (index : ScopeIndex) : ScopeM Unit := fun store =>
  match store.scope index >>= Scope.flatten with
  | .error refusal => .error refusal store
  | .ok flattened => .ok () (store.modifyScope index fun _ => flattened)

/-- Rank the symbols of every scope. -/
def flattenAll : ScopeM Unit := do
  let store ← get
  (List.range store.size).forM fun n => flatten ⟨n⟩

end ScopeStore

end ScopeMachine
