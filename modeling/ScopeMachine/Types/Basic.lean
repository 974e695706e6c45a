/-
# Types of values

A type is described by its size, its form with what the form needs, an optional
name, and the scope in which the members of its values are looked up. Types are
named by the order in which they were allocated; the first eight are the same in
every session.
-/

import ScopeMachine.Scope.Address

namespace ScopeMachine

/-- Number of a type, in the order of allocation. -/
structure TypeId where
  /-- How many types were allocated before. -/
  index : Nat
deriving DecidableEq, Inhabited

namespace TypeId

/-- Integers of 32 bits. -/
def int : TypeId := ⟨0⟩
/-- Floating-point numbers of 32 bits. -/
def float : TypeId := ⟨1⟩
/-- Truth values. -/
def bool : TypeId := ⟨2⟩
/-- Characters of 8 bits. -/
def char : TypeId := ⟨3⟩
/-- Characters of any number. -/
def wideChar : TypeId := ⟨4⟩
/-- Unsigned integers of 8 bits. -/
def byte : TypeId := ⟨5⟩
/-- Streams. -/
def stream : TypeId := ⟨6⟩
/-- What a procedure returns. -/
def void : TypeId := ⟨7⟩

/-- The names of the predefined types, in the order of their numbers. -/
def predefinedNames : List String :=
  ["int", "float", "bool", "char", "wchar", "byte", "file", "void"]

/-- Whether the type is there in every session. -/
def isPredefined (id : TypeId) : Bool :=
  id.index < predefinedNames.length

/-- The name of a predefined type. -/
def name? (id : TypeId) : Option String :=
  predefinedNames[id.index]?

/-- A type number with the name of the type where it has one in every session. -/
def text (id : TypeId) : String :=
  "TypeId(" ++ id.name?.getD (toString id.index) ++ ")"

/-- The types whose values share the scalar members. -/
def scalars : List TypeId :=
  [int, byte, float, bool, char, wideChar]

end TypeId

/-- How a value is held. -/
inductive TypeCode where
  /-- As an integer. -/
  | int
  /-- As a floating-point number. -/
  | float
  /-- As a truth value. -/
  | bool
  /-- As a character of 8 bits. -/
  | char
  /-- As a character of any number. -/
  | wideChar
  /-- As an unsigned integer of 8 bits. -/
  | byte
  /-- By reference: arrays, records, streams. -/
  | address
deriving DecidableEq

namespace TypeCode

/-- The name of a code. -/
def name : TypeCode → String
  | .int => "int"
  | .float => "float"
  | .bool => "bool"
  | .char => "char"
  | .wideChar => "wchar"
  | .byte => "byte"
  | .address => "address"

end TypeCode

/-- Layout of an array. -/
structure ArrayLayout where
  /-- The type of the elements. -/
  element : TypeId
  /-- The number of elements. -/
  count : Nat
  /-- The greatest index. -/
  maxIndex : Nat
deriving DecidableEq

/-- The form of a type with what the form needs. -/
inductive TypeShape where
  /-- A scalar held under a code. -/
  | scalar (code : TypeCode)
  /-- An enumeration of constants, in the order of their values. -/
  | enumeration (constants : List SymbolRef)
  /-- The values of `base` between two bounds. -/
  | subrange (base : TypeId) (min max : Int32)
  /-- A sequence of elements of one type. -/
  | array (layout : ArrayLayout)
  /-- A record; its fields are the symbols of a scope. -/
  | record (fields : Option ScopeIndex)
  /-- A stream. -/
  | stream
  /-- No value. -/
  | void
deriving DecidableEq

namespace TypeShape

/-- The name of the form. -/
def formName : TypeShape → String
  | .scalar _ => "scalar"
  | .enumeration _ => "enum"
  | .subrange _ _ _ => "subrange"
  | .array _ => "array"
  | .record _ => "complex"
  | .stream => "stream"
  | .void => "void"

/-- How values are held as far as the form alone says: enumerations and
subranges as integers, and what is not scalar by address. -/
def code : TypeShape → TypeCode
  | .scalar code => code
  | .enumeration _ => .int
  | .subrange _ _ _ => .int
  | _ => .address

/-- The layout, if the form is an array. -/
def layout? : TypeShape → Option ArrayLayout
  | .array layout => some layout
  | _ => none

/-- The constants, if the form is an enumeration. -/
def constants? : TypeShape → Option (List SymbolRef)
  | .enumeration constants => some constants
  | _ => none

end TypeShape

/-- Description of a type. -/
structure TypeInfo where
  /-- The declared name. -/
  name : Option String
  /-- The size of a value in bytes. -/
  size : Nat
  /-- The form. -/
  shape : TypeShape
  /-- The scope in which members of values are looked up. -/
  memberScope : Option ScopeIndex := none
deriving DecidableEq

end ScopeMachine
