/-
# Values of the machine

A value is a scalar, an array held as its bytes, a stream, or the address of a
variable. Addresses are bound to var parameters and say which activation the
variable lives in, so that they keep naming the same storage however far they
are passed on.
-/

import ScopeMachine.Code
import ScopeMachine.Text.Utf8

namespace ScopeMachine

/-- Number of a stream slot. -/
structure StreamId where
  /-- How many slots there were before. -/
  index : Nat
deriving DecidableEq, Inhabited

namespace StreamId

/-- The slot that starts as standard input. -/
def standardInput : StreamId := ⟨0⟩
/-- The slot that starts as standard output. -/
def standardOutput : StreamId := ⟨1⟩
/-- The slot that starts as standard error. -/
def standardError : StreamId := ⟨2⟩

/-- A stream slot as it is shown. -/
def text (id : StreamId) : String :=
  "#" ++ toString id.index

end StreamId

/-- Where a variable lives. -/
inductive Place where
  /-- Among the globals. -/
  | globals
  /-- In an activation, counted from the outermost. -/
  | frame (depth : Nat)
deriving DecidableEq

/-- A variable in the activation that owns it. -/
structure VariableAddress where
  /-- The symbol of the variable. -/
  symbol : SymbolRef
  /-- Where the variable lives. -/
  place : Place
deriving DecidableEq

namespace VariableAddress

/-- The address of a variable as it is shown. -/
def text (address : VariableAddress) : String :=
  let symbol := address.symbol.scope.text ++ ":" ++ toString address.symbol.entry.val
  match address.place with
  | .globals => symbol
  | .frame depth => symbol ++ "@" ++ toString depth

end VariableAddress

/-- A value on the stack or in a variable. -/
inductive Value where
  /-- An integer. -/
  | int (value : Int32)
  /-- A floating-point number. -/
  | float (value : Binary32)
  /-- A character of 8 bits. -/
  | char (code : UInt8)
  /-- A character of any number. -/
  | wideChar (value : Char)
  /-- A truth value. -/
  | bool (value : Bool)
  /-- A byte. -/
  | byte (value : UInt8)
  /-- The bytes of an array. -/
  | buffer (bytes : List UInt8)
  /-- A stream. -/
  | stream (id : StreamId)
  /-- The address of a variable. -/
  | address (target : VariableAddress)
deriving DecidableEq

/-- The kinds of values. -/
inductive ValueKind where
  | int
  | float
  | char
  | wideChar
  | bool
  | byte
  | buffer
  | stream
  | address
deriving DecidableEq

namespace ValueKind

/-- The name of a kind of values. -/
def name : ValueKind → String
  | .int => "int"
  | .float => "float"
  | .char => "char"
  | .wideChar => "wchar"
  | .bool => "bool"
  | .byte => "byte"
  | .buffer => "array"
  | .stream => "file"
  | .address => "address"

end ValueKind

namespace Value

/-- The kind of a value. -/
def kind : Value → ValueKind
  | .int _ => .int
  | .float _ => .float
  | .char _ => .char
  | .wideChar _ => .wideChar
  | .bool _ => .bool
  | .byte _ => .byte
  | .buffer _ => .buffer
  | .stream _ => .stream
  | .address _ => .address

/-- The integer that an ordinal value stands for. -/
def ordinal? : Value → Option Int32
  | .int value => some value
  | .char code => some (Int32.ofNat code.toNat)
  | .wideChar value => some (Int32.ofNat value.toNat)
  | .bool value => some (if value then 1 else 0)
  | .byte value => some (Int32.ofNat value.toNat)
  | _ => none

/-- Whether a value is an ordinal other than zero. -/
def isTrue (value : Value) : Bool :=
  value.ordinal?.any (· != 0)

/-- The word for a truth value. -/
def truthText (value : Value) : String :=
  if value.isTrue then "true" else "false"

/-- The value that a literal pushes. -/
def ofLiteral : Literal → Value
  | .int value => .int value
  | .float value => .float value
  | .char code => .char code
  | .wideChar value => .wideChar value
  | .bool value => .bool value
  | .byte value => .byte value
  | .text value => .buffer (Text.encode value)

end Value

end ScopeMachine
