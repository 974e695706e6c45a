/-
# Naming the symbols of a program

A symbol is named in two ways. A reference gives its scope and its entry there,
and is good from the moment the name is entered. An address gives its scope and
its rank, the place of its name in key order, and is good once the scope has
been ranked; compiled code holds addresses only.

Scopes and ranks are numbered with 16 bits and entries with 32, which is where
the capacities come from.
-/

namespace ScopeMachine

/-- Number of a scope, in the order of creation. -/
structure ScopeIndex where
  /-- How many scopes were created before. -/
  val : Nat
deriving DecidableEq, Inhabited

/-- Place of a name in the key order of its scope. -/
structure Rank where
  /-- How many names of the scope are smaller. -/
  val : Nat
deriving DecidableEq, Inhabited

/-- Number of a symbol within its scope, in the order of entry. -/
structure EntryId where
  /-- How many symbols were entered before. -/
  val : Nat
deriving DecidableEq, Inhabited

namespace ScopeIndex

/-- How many scopes can be numbered. -/
def capacity : Nat := 65536

/-- The scope index `n`, if it can be written in 16 bits. -/
def ofNat? (n : Nat) : Option ScopeIndex :=
  if n < capacity then some ⟨n⟩ else none

/-- A scope index as it is shown in messages. -/
def text (index : ScopeIndex) : String :=
  toString index.val

end ScopeIndex

namespace Rank

/-- How many symbols of one scope can be ranked. -/
def capacity : Nat := 65536

/-- The rank `n`, if it can be written in 16 bits. -/
def ofNat? (n : Nat) : Option Rank :=
  if n < capacity then some ⟨n⟩ else none

/-- A rank as it is shown in messages. -/
def text (rank : Rank) : String :=
  toString rank.val

end Rank

namespace EntryId

/-- How many entries can be numbered. -/
def capacity : Nat := 4294967296

/-- The entry number `n`, if it can be written in 32 bits. -/
def ofNat? (n : Nat) : Option EntryId :=
  if n < capacity then some ⟨n⟩ else none

/-- An entry number with the word for what it counts. -/
def text (entry : EntryId) : String :=
  "NodeId(" ++ toString entry.val ++ ")"

end EntryId

/-- A symbol named by its entry in a scope. -/
structure SymbolRef where
  /-- The scope that holds the symbol. -/
  scope : ScopeIndex
  /-- The symbol's entry in that scope. -/
  entry : EntryId
deriving DecidableEq, Inhabited

/-- A symbol named by its rank in a scope. -/
structure SymbolAddr where
  /-- The scope that holds the symbol. -/
  scope : ScopeIndex
  /-- The symbol's rank in that scope. -/
  rank : Rank
deriving DecidableEq, Inhabited

namespace SymbolRef

/-- A reference with its parts named. -/
def text (ref : SymbolRef) : String :=
  "SymbolRef \x7b table: TableIndex(" ++ ref.scope.text ++ "), node: " ++
    ref.entry.text ++ " \x7d"

end SymbolRef

namespace SymbolAddr

/-- An address as a pair. -/
def text (addr : SymbolAddr) : String :=
  "(" ++ addr.scope.text ++ ", " ++ addr.rank.text ++ ")"

/-- An address with its parts named. -/
def detailedText (addr : SymbolAddr) : String :=
  "SymbolAddr \x7b table: TableIndex(" ++ addr.scope.text ++ "), node: NodeIndex(" ++
    addr.rank.text ++ ") \x7d"

/-- Addresses are ordered by scope, and within a scope by rank. -/
instance : Ord SymbolAddr where
  compare first second :=
    (compare first.scope.val second.scope.val).then (compare first.rank.val second.rank.val)

end SymbolAddr

end ScopeMachine
