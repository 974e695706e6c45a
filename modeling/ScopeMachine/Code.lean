/-
# Compiled code

The body of a routine is a list of instructions for a stack machine. They name
variables and routines by address, never by reference, so that a body stays
meaningful apart from the tables it was compiled against.
-/

import ScopeMachine.Decimal.Binary
import ScopeMachine.Types.Basic

namespace ScopeMachine

/-- A value written into the code. -/
inductive Literal where
  /-- An integer. -/
  | int (value : Int32)
  /-- A floating-point number. -/
  | float (value : Binary32)
  /-- A character of 8 bits. -/
  | char (code : UInt8)
  /-- A character of any number. -/
  | wideChar (value : Char)
  /-- A truth value. -/
  | bool (value : Bool)
  /-- A byte. -/
  | byte (value : UInt8)
  /-- A text, held as an array of its bytes. -/
  | text (value : String)
deriving DecidableEq

/-- An operation on two numbers. -/
inductive Arithmetic where
  /-- The sum. -/
  | add
  /-- The difference, the upper operand taken from the lower. -/
  | sub
  /-- The product. -/
  | mul
deriving DecidableEq

/-- One instruction. -/
inductive Op where
  /-- Push a literal. -/
  | push (literal : Literal)
  /-- Push the value of a variable. -/
  | fetch (addr : SymbolAddr)
  /-- Push the address of a variable, to be bound to a var parameter. -/
  | fetchAddress (addr : SymbolAddr)
  /-- Pop a value into a variable. -/
  | store (addr : SymbolAddr)
  /-- Call a routine whose arguments have been pushed. -/
  | call (addr : SymbolAddr)
  /-- Call a member of a value that was pushed before the arguments and whose
  type is `receiver`. -/
  | callMember (addr : SymbolAddr) (receiver : TypeId)
  /-- Begin the statement on a source line. -/
  | statement (line : Nat)
  /-- Replace the two upper values by the result of an operation. -/
  | arithmetic (operation : Arithmetic)
  /-- Drop the top of the stack. -/
  | pop
  /-- Leave the routine. -/
  | leave
deriving DecidableEq

/-- The body of a routine. -/
abbrev Body := List Op

end ScopeMachine
