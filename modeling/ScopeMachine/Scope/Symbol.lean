/-
# Symbols and their definitions

A symbol is a name in a scope with what has been found out about it: what it was
declared as, its type, the value of a constant, and the lines on which it was
seen. Routines carry their parameters, their own scope and their code.
-/

import ScopeMachine.Code
import ScopeMachine.Member

namespace ScopeMachine

/-- Where the code of a routine comes from. -/
inductive RoutineCode where
  /-- Declared; the body has not been compiled yet. -/
  | declared
  /-- Declared ahead of its body. -/
  | forward
  /-- Carried out by the machine itself. -/
  | native (member : Member)
  /-- Compiled. -/
  | interpreted (body : Body)
deriving DecidableEq

/-- What makes a symbol a routine. -/
structure Routine where
  /-- The code. -/
  code : RoutineCode
  /-- The number of parameters. -/
  parameterCount : Nat := 0
  /-- The sizes of the parameters taken together. -/
  totalParameterSize : Nat := 0
  /-- The parameters in the order of declaration. -/
  parameters : List SymbolRef := []
  /-- The other names declared in the routine. -/
  locals : List SymbolRef := []
  /-- The routine's own scope. -/
  scope : Option ScopeIndex := none
deriving DecidableEq

/-- The kinds of routines. -/
inductive RoutineKind where
  /-- The main program, whose variables are the globals. -/
  | program
  /-- A routine without a result. -/
  | procedure
  /-- A routine with a result. -/
  | function
deriving DecidableEq

namespace RoutineKind

/-- The name of a kind of routine. -/
def name : RoutineKind → String
  | .program => "program"
  | .procedure => "procedure"
  | .function => "function"

end RoutineKind

/-- What a symbol was declared as. -/
inductive Definition where
  /-- Not declared yet. -/
  | undefined
  /-- A constant, also one of an enumeration. -/
  | constant
  /-- A type. -/
  | type
  /-- A variable. -/
  | variable
  /-- A field of a record. -/
  | field
  /-- A parameter that holds its argument. -/
  | valueParameter
  /-- A parameter that stands for the variable passed to it. -/
  | varParameter
  /-- A routine. -/
  | routine (kind : RoutineKind) (details : Routine)
deriving DecidableEq

namespace Definition

/-- The name of what a symbol was declared as. -/
def kindName : Definition → String
  | .undefined => "undefined"
  | .constant => "constant"
  | .type => "type"
  | .variable => "variable"
  | .field => "field"
  | .valueParameter => "value parameter"
  | .varParameter => "var parameter"
  | .routine kind _ => kind.name

/-- Whether the machine keeps a value for such a symbol. -/
def hasStorage : Definition → Bool
  | .variable => true
  | .field => true
  | .valueParameter => true
  | .varParameter => true
  | _ => false

/-- The routine, if the symbol is one. -/
def routine? : Definition → Option Routine
  | .routine _ details => some details
  | _ => none

/-- Replace the routine; other definitions stay as they are. -/
def mapRoutine (change : Routine → Routine) : Definition → Definition
  | .routine kind details => .routine kind (change details)
  | defn => defn

end Definition

/-- A name in a scope with what is known about it. -/
structure Symbol where
  /-- The name. -/
  name : String
  /-- The scope that holds the symbol. -/
  home : ScopeIndex
  /-- The value of a constant, or its place in an enumeration. -/
  value : Binary64 := ⟨0⟩
  /-- The lines on which the name was seen, in that order. -/
  references : Array Nat := #[]
  /-- The type, once it is known. -/
  type : Option TypeId := none
  /-- What the symbol was declared as. -/
  defn : Definition := .undefined
deriving DecidableEq

namespace Symbol

/-- Record that the name was seen on a line. -/
def refer (symbol : Symbol) (line : Nat) : Symbol :=
  { symbol with references := symbol.references.push line }

end Symbol

end ScopeMachine
