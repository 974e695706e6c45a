/-
# Announcements and the values in them

A trace shows a value after the type of the variable that holds it. Streams show
as nothing at all, arrays of characters as their text, constants of an
enumeration by name, and what has no better text as an integer or as the kind of
the value. Only the predefined types count as numbers, characters and truth
values here, so a subrange of characters shows integers.

A fetch or a store is announced by the name of the variable, marked if it holds
an array or a record, and the text of the value.
-/

import ScopeMachine.Decimal.General
import ScopeMachine.Scope.Store
import ScopeMachine.Sink
import ScopeMachine.Text.Basic
import ScopeMachine.Types.Store
import ScopeMachine.Value

namespace ScopeMachine

namespace Value

/-- The integer of an ordinal value, and the kind of any other. -/
def integerText (value : Value) : String :=
  match value.ordinal? with
  | some n => toString n.toInt
  | none => "<" ++ value.kind.name ++ ">"

/-- A floating-point number as it is shown. -/
def floatText (value : Binary32) : String :=
  value.reading.generalText Decimal.shownPrecision

/-- A text between single quotes. -/
def quoted (text : String) : String :=
  "'" ++ text ++ "'"

/-- A value under an array type: a text if it is one, up to its first NUL and no
longer than the array. -/
def arrayText (value : Value) (layout : ArrayLayout) : String :=
  match value with
  | .buffer bytes =>
    if layout.element = .char then
      quoted (Text.ofBytes (Text.beforeNul (bytes.take layout.count)))
    else "<array>"
  | _ => "<array>"

/-- The name of the constant that a value stands for in an enumeration. -/
def constantName? (value : Value) (constants : List SymbolRef) (scopes : ScopeStore) :
    Option String := do
  let ordinal ← value.ordinal?
  if ordinal.toInt < 0 then none
  else
    let constant ← constants[ordinal.toInt.toNat]?
    let symbol ← (scopes.symbol constant).toOption
    return symbol.name

/-- A value that is neither of a predefined type nor an array, record or stream. -/
def ordinalText (value : Value) (type : TypeId) (types : TypeStore) (scopes : ScopeStore) :
    Except TypeRefusal String := do
  let base ← types.base type
  let shape ← types.shape base
  match shape with
  | .enumeration constants =>
    return (value.constantName? constants scopes).getD value.integerText
  | _ => return value.integerText

/-- The text of a value under a type; streams have none. -/
def render (value : Value) (type : TypeId) (types : TypeStore) (scopes : ScopeStore) :
    Except TypeRefusal (Option String) := do
  let shape ← types.shape type
  if shape = .stream then return none
  else if type = .float then
    match value with
    | .float number => return some (floatText number)
    | _ => return some value.integerText
  else if type = .char then
    match value with
    | .char code => return some (quoted (String.singleton (Text.charOfByte code)))
    | _ => return some value.integerText
  else if type = .bool then return some value.truthText
  else
    match shape with
    | .array layout => return some (value.arrayText layout)
    | .record _ => return some "<complex>"
    | _ =>
      let text ← value.ordinalText type types scopes
      return some text

end Value

namespace Symbol

/-- The type under which the values of a symbol are shown. -/
def shownType (symbol : Symbol) : TypeId :=
  symbol.type.getD .void

/-- What marks the name of a variable of some form. -/
def formMark : TypeShape → String
  | .array _ => "[*]"
  | .record _ => ".*"
  | _ => ""

/-- The name of a variable as it is announced. -/
def subject (symbol : Symbol) (types : TypeStore) : Except TypeRefusal String := do
  let shape ← types.shape symbol.shownType
  return symbol.name ++ formMark shape

/-- The announcement that `value` was fetched from a variable. -/
def fetchPiece (symbol : Symbol) (value : Value) (types : TypeStore) (scopes : ScopeStore) :
    Except TypeRefusal Piece := do
  let subject ← symbol.subject types
  let text ← value.render symbol.shownType types scopes
  return .fetched subject text

/-- The announcement that `value` is stored into a variable. -/
def storePiece (symbol : Symbol) (value : Value) (types : TypeStore) (scopes : ScopeStore) :
    Except TypeRefusal Piece := do
  let subject ← symbol.subject types
  let text ← value.render symbol.shownType types scopes
  return .stored subject text

end Symbol

end ScopeMachine
