/-
# Scopes

A scope is the symbol table of one stretch of a program. Symbols are numbered as
they are entered and found by name through a search tree. Flattening a scope
writes down the entries in key order and with every symbol its rank, and a new
name makes both void.
-/

import ScopeMachine.Scope.Error
import ScopeMachine.Scope.NameTree
import ScopeMachine.Scope.Symbol
import ScopeMachine.Settings

namespace ScopeMachine

/-- The symbol table of one scope. -/
structure Scope where
  /-- The number of the scope. -/
  index : ScopeIndex
  /-- The symbols in the order of entry. -/
  symbols : Array Symbol := #[]
  /-- The search tree of the names. -/
  names : NameTree := .leaf
  /-- The entries in key order, if no name was entered since they were put in order. -/
  order : Option (Array EntryId) := none
  /-- The rank of every symbol that has one, in the order of entry. -/
  ranks : Array (Option Rank) := #[]
deriving DecidableEq

namespace Scope

/-- How many symbols a scope can hold: as many as can be ranked. -/
def capacity : Nat := Rank.capacity

/-- The number of symbols. -/
def size (scope : Scope) : Nat :=
  scope.symbols.size

/-- Whether the symbols are ranked. -/
def isFlattened (scope : Scope) : Bool :=
  scope.order.isSome

/-- The symbol of an entry. -/
def symbol? (scope : Scope) (entry : EntryId) : Option Symbol :=
  scope.symbols[entry.val]?

/-- The rank of an entry, if it has one. -/
def rank? (scope : Scope) (entry : EntryId) : Option Rank :=
  (scope.ranks[entry.val]?).join

/-- A reference to an entry of this scope. -/
def ref (scope : Scope) (entry : EntryId) : SymbolRef :=
  ⟨scope.index, entry⟩

/-- Change the symbol of an entry. -/
def modifySymbol (scope : Scope) (entry : EntryId) (change : Symbol → Symbol) : Scope :=
  { scope with symbols := scope.symbols.modify entry.val change }

/-- Record that an entry was seen on the current line, if references are recorded. -/
def refer (scope : Scope) (entry : EntryId) (context : Context) : Scope :=
  if context.recordsReferences then scope.modifySymbol entry (·.refer context.line) else scope

/-- The entry of a name. Nothing is recorded. -/
def search (scope : Scope) (name : String) : Option EntryId :=
  scope.names.find? name

/-- The scope after a name was looked up: a hit is a reference to it. -/
def lookup (scope : Scope) (name : String) (context : Context) : Scope :=
  match scope.search name with
  | some entry => scope.refer entry context
  | none => scope

/-- A symbol as it is entered on the current line. -/
def newSymbol (scope : Scope) (name : String) (context : Context) : Symbol :=
  let symbol : Symbol := { name, home := scope.index }
  if context.recordsReferences then symbol.refer context.line else symbol

/-- The entry of the next new symbol, if there is room for it and a number. -/
def newEntry? (scope : Scope) : Option EntryId :=
  if scope.size < capacity then EntryId.ofNat? scope.size else none

/-- Where there is room, there is a number: fewer symbols have room than can be numbered. -/
theorem newEntry?_eq (scope : Scope) :
    scope.newEntry? = if scope.size < capacity then some ⟨scope.size⟩ else none := by
  unfold newEntry?
  split
  case isTrue hroom => exact if_pos (Nat.lt_trans hroom (by decide))
  case isFalse => rfl

/-- The entry that a name has or would be given; a new name needs room. -/
def admission (scope : Scope) (name : String) : Except ScopeError EntryId :=
  match scope.search name with
  | some entry => .ok entry
  | none =>
    match scope.newEntry? with
    | some entry => .ok entry
    | none => .error (.scopeFull scope.index capacity)

/-- Add a new symbol, which has no rank yet. -/
def push (scope : Scope) (name : String) (entry : EntryId) (symbol : Symbol) : Scope :=
  { scope with
    symbols := scope.symbols.push symbol
    ranks := scope.ranks.push none
    names := scope.names.insert name entry }

/-- Make the key order and all ranks void, if there are any. -/
def unranked (scope : Scope) : Scope :=
  if scope.order.isSome then
    { scope with order := none, ranks := Array.replicate scope.ranks.size none }
  else scope

section Unranked

variable (scope : Scope)

@[simp]
theorem index_unranked : scope.unranked.index = scope.index := by
  unfold unranked
  split <;> rfl

@[simp]
theorem symbols_unranked : scope.unranked.symbols = scope.symbols := by
  unfold unranked
  split <;> rfl

@[simp]
theorem names_unranked : scope.unranked.names = scope.names := by
  unfold unranked
  split <;> rfl

@[simp]
theorem order_unranked : scope.unranked.order = none := by
  unfold unranked
  split
  case isTrue => rfl
  case isFalse hnone => simpa using hnone

@[simp]
theorem size_ranks_unranked : scope.unranked.ranks.size = scope.ranks.size := by
  unfold unranked
  split
  case isTrue => exact Array.size_replicate
  case isFalse => rfl

/-- No rank is left, provided that there were none without an order. -/
theorem rank?_unranked {entry : EntryId} (hvoid : scope.order = none → scope.rank? entry = none) :
    scope.unranked.rank? entry = none := by
  unfold unranked
  split
  case isTrue =>
    rw [rank?, Array.getElem?_replicate]
    split <;> rfl
  case isFalse hnone => exact hvoid (by simpa using hnone)

end Unranked

/-- The scope after a name was entered. A name that is there is referred to, a
new one makes the ranks void, and a full scope takes none. -/
def enter (scope : Scope) (name : String) (context : Context) : Scope :=
  match scope.search name with
  | some entry => scope.refer entry context
  | none =>
    match scope.newEntry? with
    | some entry => (scope.push name entry (scope.newSymbol name context)).unranked
    | none => scope

/-- Write down the ranks of `entries`, which stand in key order from `next` on. -/
def rankFrom : (next : Nat) → List EntryId → Array (Option Rank) → Option (Array (Option Rank))
  | _, [], ranks => some ranks
  | next, entry :: rest, ranks =>
    match Rank.ofNat? next with
    | some rank => rankFrom (next + 1) rest (ranks.setIfInBounds entry.val (some rank))
    | none => none

/-- Rank the symbols in key order, and keep this order. -/
def flatten (scope : Scope) : Except ScopeError Scope :=
  match rankFrom 0 scope.names.entries scope.ranks with
  | some ranks => .ok { scope with ranks, order := some scope.names.entries.toArray }
  | none => .error (.scopeFull scope.index capacity)

/-- The entries in key order, if they have been put in order. -/
def keyOrder (scope : Scope) : Except ScopeError (Array EntryId) :=
  match scope.order with
  | some order => .ok order
  | none => .error (.notFlattened scope.index)

/-- The entry of a rank. -/
def entryAt (scope : Scope) (rank : Rank) : Except ScopeError EntryId := do
  let order ← scope.keyOrder
  match order[rank.val]? with
  | some entry => return entry
  | none => .error (.badAddress ⟨scope.index, rank⟩)

end Scope

end ScopeMachine
