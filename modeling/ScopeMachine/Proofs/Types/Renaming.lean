/-
# Types with renamed constants

The only symbols that a type refers to are the constants of an enumeration.
Renaming them changes nothing that can be asked of a type but the constants
themselves: sizes, codes, bases and layouts stay, and so does every refusal.
-/

import ScopeMachine.Types.Store

namespace ScopeMachine

/-- The form with the constants of an enumeration renamed. -/
def TypeShape.rename (names : SymbolRef → SymbolRef) : TypeShape → TypeShape
  | .enumeration constants => .enumeration (constants.map names)
  | shape => shape

/-- The description with the constants of an enumeration renamed. -/
def TypeInfo.rename (names : SymbolRef → SymbolRef) (info : TypeInfo) : TypeInfo :=
  { info with shape := info.shape.rename names }

/-- The types with the constants of every enumeration renamed. -/
def TypeStore.rename (names : SymbolRef → SymbolRef) (types : TypeStore) : TypeStore :=
  ⟨types.infos.map (TypeInfo.rename names)⟩

namespace TypeShape

variable (names : SymbolRef → SymbolRef) (shape : TypeShape)

@[simp]
theorem layout?_rename : (shape.rename names).layout? = shape.layout? := by
  cases shape <;> rfl

@[simp]
theorem code_rename : (shape.rename names).code = shape.code := by
  cases shape <;> rfl

theorem rename_id : shape.rename id = shape := by
  cases shape <;> simp [rename]

end TypeShape

namespace TypeStore

variable (names : SymbolRef → SymbolRef) (types : TypeStore) (type : TypeId)

/-- Renaming no constant changes no type. -/
theorem rename_id : types.rename id = types := by
  obtain ⟨infos⟩ := types
  have hinfo : TypeInfo.rename id = id := by
    funext info
    simp [TypeInfo.rename, TypeShape.rename_id]
  simp [rename, hinfo]

/-- The predefined types refer to no symbols. -/
theorem rename_predefined : predefined.rename names = predefined := by
  simp [predefined, rename, TypeInfo.rename, TypeShape.rename]

theorem find_rename :
    (types.rename names).find type = (types.find type).map (TypeInfo.rename names) := by
  simp only [find, rename, Array.getElem?_map]
  cases types.infos[type.index]? <;> rfl

theorem sizeOf_rename : (types.rename names).sizeOf type = types.sizeOf type := by
  simp only [sizeOf, find_rename]
  cases types.find type <;> rfl

theorem shape_rename :
    (types.rename names).shape type = (types.shape type).map (TypeShape.rename names) := by
  simp only [shape, find_rename]
  cases types.find type <;> rfl

@[simp]
theorem size_rename : (types.rename names).size = types.size := by
  simp [size, rename]

/-- Renaming keeps what is behind a chain of subranges. -/
theorem base_rename : (types.rename names).base type = types.base type := by
  rw [base, base, size_rename]
  induction types.size + 1 generalizing type with
  | zero => rfl
  | succ steps ih =>
      rw [baseWithin, baseWithin, find_rename]
      cases types.find type with
      | error e => rfl
      | ok info =>
          obtain ⟨name, size, shape, memberScope⟩ := info
          cases shape with
          | subrange inner min max => exact ih inner
          | _ => rfl

theorem code_rename : (types.rename names).code type = types.code type := by
  simp only [code, base_rename, shape_rename]
  cases types.base type with
  | error e => rfl
  | ok inner =>
      show ((types.shape inner).map _ >>= _) = (types.shape inner >>= _)
      cases types.shape inner with
      | error e => rfl
      | ok shape => exact congrArg Except.ok (TypeShape.code_rename names shape)

/-- Types are added to renamed types as to the types themselves. -/
theorem allocate_rename (info : TypeInfo) :
    (types.rename names).allocate (info.rename names) =
      ((types.allocate info).1, (types.allocate info).2.rename names) := by
  simp [allocate, rename]

end TypeStore

end ScopeMachine
