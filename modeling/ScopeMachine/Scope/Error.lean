/-
# Refusals of the symbol tables

A symbol table refuses a name when it is full, and a program refuses another
scope when it has all it can number; both end a compilation. The other refusals
answer references and addresses that lead nowhere.
-/

import ScopeMachine.Scope.Address

namespace ScopeMachine

/-- Why a symbol table refuses. -/
inductive ScopeError where
  /-- The scope holds as many symbols as can be ranked. -/
  | scopeFull (scope : ScopeIndex) (capacity : Nat)
  /-- There are as many scopes as can be numbered. -/
  | tooManyScopes (capacity : Nat)
  /-- There is no scope of this number. -/
  | unknownScope (scope : ScopeIndex)
  /-- The scope has no ranks to address its symbols by. -/
  | notFlattened (scope : ScopeIndex)
  /-- The address leads to no symbol. -/
  | badAddress (addr : SymbolAddr)
  /-- The reference leads to no symbol. -/
  | unknownSymbol (ref : SymbolRef)
deriving DecidableEq

/-- Why a compilation is given up. -/
inductive AbortReason where
  /-- A scope ran full. -/
  | scopeFull
  /-- Scopes ran out. -/
  | tooManyScopes
  /-- A reference or address was wrong. -/
  | inconsistent
deriving DecidableEq

namespace AbortReason

/-- The status with which the compilation ends. -/
def status : AbortReason → Int
  | .scopeFull => -11
  | .tooManyScopes => -12
  | .inconsistent => -13

/-- The message with which the compilation ends. -/
def message : AbortReason → String
  | .scopeFull => "Symbol table overflow"
  | .tooManyScopes => "Too many nested scopes"
  | .inconsistent => "Internal compiler error"

end AbortReason

namespace ScopeError

/-- The message for a refusal. -/
def message : ScopeError → String
  | .scopeFull scope capacity =>
    "symbol table " ++ scope.text ++ " is full: at most " ++ toString capacity ++
      " identifiers per scope"
  | .tooManyScopes capacity =>
    "too many symbol tables: at most " ++ toString capacity ++ " scopes per program"
  | .unknownScope scope => "no symbol table with index " ++ scope.text
  | .notFlattened scope => "symbol table " ++ scope.text ++ " has not been flattened"
  | .badAddress addr => "no symbol at address " ++ addr.text
  | .unknownSymbol ref => "no symbol node " ++ ref.text

/-- Why a compilation is given up that meets the refusal. -/
def abortReason : ScopeError → AbortReason
  | .scopeFull _ _ => .scopeFull
  | .tooManyScopes _ => .tooManyScopes
  | _ => .inconsistent

end ScopeError

end ScopeMachine
