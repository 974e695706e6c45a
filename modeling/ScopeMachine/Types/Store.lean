/-
# The types of a session

The store holds the description of every type and only ever grows: a type that
has been allocated keeps its number and its description, and later operations
change nothing of it but its member scope. Whatever is asked of a number that
names no type is refused.

A subrange or an array refers to another type, and some questions follow such
references from type to type. They are followed for as many steps as there are
types: whoever has not come to an end by then is back at a type where he was
before, and never comes to one.
-/

import ScopeMachine.Types.Basic

namespace ScopeMachine

/-- Why a question about a type has no answer. -/
inductive TypeRefusal where
  /-- A number names no type. -/
  | unknown (id : TypeId)
  /-- References lead from type to type without end. -/
  | endless
deriving DecidableEq

namespace TypeRefusal

/-- The message for a question without an answer. -/
def message : TypeRefusal → String
  | .unknown id => "no type " ++ id.text
  | .endless => "type references without end"

end TypeRefusal

/-- The types of a session. -/
structure TypeStore where
  /-- The descriptions, in the order of allocation. -/
  infos : Array TypeInfo
deriving DecidableEq

namespace TypeStore

/-- The greatest size of a value; larger arrays are given this size. -/
def sizeLimit : Nat := 18446744073709551615

/-- The store that a session starts with. -/
def predefined : TypeStore where
  infos := #[
    { name := some "int", size := 4, shape := .scalar .int },
    { name := some "float", size := 4, shape := .scalar .float },
    { name := some "bool", size := 1, shape := .scalar .bool },
    { name := some "char", size := 1, shape := .scalar .char },
    { name := some "wchar", size := 4, shape := .scalar .wideChar },
    { name := some "byte", size := 1, shape := .scalar .byte },
    { name := some "file", size := 8, shape := .stream },
    { name := some "void", size := 0, shape := .void }]

/-- How many types there are. -/
def size (types : TypeStore) : Nat :=
  types.infos.size

/-- The description of a type. -/
def find (types : TypeStore) (id : TypeId) : Except TypeRefusal TypeInfo :=
  match types.infos[id.index]? with
  | some info => .ok info
  | none => .error (.unknown id)

theorem find_eq_ok_iff {types : TypeStore} {id : TypeId} {info : TypeInfo} :
    types.find id = .ok info ↔ types.infos[id.index]? = some info := by
  unfold find
  cases types.infos[id.index]? <;> simp

/-- Exactly the numbers below the size name types. -/
theorem find_isOk_iff {types : TypeStore} {id : TypeId} :
    (∃ info, types.find id = .ok info) ↔ id.index < types.size := by
  simp only [find_eq_ok_iff, size]
  constructor
  · rintro ⟨info, hinfo⟩
    exact (Array.getElem?_eq_some_iff.mp hinfo).1
  · intro hless
    exact ⟨types.infos[id.index], Array.getElem?_eq_getElem hless⟩

/-- Add a description and answer its number. -/
def allocate (types : TypeStore) (info : TypeInfo) : TypeId × TypeStore :=
  (⟨types.infos.size⟩, { types with infos := types.infos.push info })

/-- A new type takes the next number. -/
theorem find_allocate_self (types : TypeStore) (info : TypeInfo) :
    (types.allocate info).2.find (types.allocate info).1 = .ok info := by
  simp [allocate, find]

/-- A new type changes no type that was there. -/
theorem find_allocate_of_lt (types : TypeStore) (info : TypeInfo) {id : TypeId}
    (hid : id.index < types.size) : (types.allocate info).2.find id = types.find id := by
  have hindex : id.index < types.infos.size := hid
  simp [allocate, find, Array.getElem?_push, Nat.ne_of_lt hindex]

/-- Add an array of `count` elements. Its greatest index is the element count,
as open arrays have it. -/
def array (types : TypeStore) (element : TypeId) (count : Nat) :
    Except TypeRefusal (TypeId × TypeStore) := do
  let info ← types.find element
  return types.allocate
    { name := none, size := min (info.size * count) sizeLimit,
      shape := .array ⟨element, count, count⟩ }

/-- Add an enumeration. -/
def enumeration (types : TypeStore) (name : String) (constants : List SymbolRef) :
    TypeId × TypeStore :=
  types.allocate { name := some name, size := 4, shape := .enumeration constants }

/-- Add a subrange of `base`. Its values are as large as those of the base. -/
def subrange (types : TypeStore) (base : TypeId) (min max : Int32) :
    Except TypeRefusal (TypeId × TypeStore) := do
  let info ← types.find base
  return types.allocate { name := none, size := info.size, shape := .subrange base min max }

/-- Add a record. -/
def record (types : TypeStore) (name : String) (size : Nat) (fields : Option ScopeIndex) :
    TypeId × TypeStore :=
  types.allocate { name := some name, size, shape := .record fields }

/-- The form of a type. -/
def shape (types : TypeStore) (id : TypeId) : Except TypeRefusal TypeShape := do
  let info ← types.find id
  return info.shape

/-- The size of the values of a type. -/
def sizeOf (types : TypeStore) (id : TypeId) : Except TypeRefusal Nat := do
  let info ← types.find id
  return info.size

/-- The type behind at most `steps` subranges. -/
def baseWithin (types : TypeStore) : (steps : Nat) → TypeId → Except TypeRefusal TypeId
  | 0, _ => .error .endless
  | steps + 1, id => do
    let info ← types.find id
    match info.shape with
    | .subrange inner _ _ => baseWithin types steps inner
    | _ => return id

/-- The type behind any number of subranges; other types are their own base. -/
def base (types : TypeStore) (id : TypeId) : Except TypeRefusal TypeId :=
  types.baseWithin (types.size + 1) id

/-- How values of a type are held, looking through subranges. -/
def code (types : TypeStore) (id : TypeId) : Except TypeRefusal TypeCode := do
  let inner ← types.base id
  let shape ← types.shape inner
  return shape.code

/-- Whether the type is an array of characters of 8 bits. -/
def isCharArray (types : TypeStore) (id : TypeId) : Except TypeRefusal Bool := do
  let shape ← types.shape id
  return shape.layout?.any (·.element = .char)

/-- The scope in which members of values of a type are looked up. -/
def memberScope (types : TypeStore) (id : TypeId) : Except TypeRefusal (Option ScopeIndex) := do
  let info ← types.find id
  return info.memberScope

/-- Look members of values of a type up in `scope` from now on. -/
def setMemberScope (types : TypeStore) (id : TypeId) (scope : ScopeIndex) :
    Except TypeRefusal TypeStore := do
  let _ ← types.find id
  return { types with
    infos := types.infos.modify id.index fun info => { info with memberScope := some scope } }

/-- What a type is called if at most `steps` types have to be named for it. -/
def displayNameWithin (types : TypeStore) : (steps : Nat) → TypeId → Except TypeRefusal String
  | 0, _ => .error .endless
  | steps + 1, id => do
    let info ← types.find id
    match info.name with
    | some name => return name
    | none =>
      match info.shape with
      | .array layout =>
        let element ← displayNameWithin types steps layout.element
        return element ++ "[" ++ toString layout.count ++ "]"
      | .subrange inner min max =>
        let name ← displayNameWithin types steps inner
        return name ++ "(" ++ toString min.toInt ++ ".." ++ toString max.toInt ++ ")"
      | shape => return shape.formName

/-- What a type is called: its declared name, or a text that follows its form. -/
def displayName (types : TypeStore) (id : TypeId) : Except TypeRefusal String :=
  types.displayNameWithin (types.size + 1) id

end TypeStore

end ScopeMachine
