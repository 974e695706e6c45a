/-
# Chains of subranges

A subrange stands on another type, which may be a subrange again. What is behind the chain
decides how values are held and how they are shown.
-/

import ScopeMachine.Proofs.Types.Extensions

namespace ScopeMachine.TypeStore

/-- The type is `root` or a subrange of it, of a subrange of it, and so forth. -/
inductive RangesOver (types : TypeStore) (root : TypeId) : TypeId → Prop
  | refl : RangesOver types root root
  | subrange {id inner : TypeId} {min max : Int32}
      (hshape : types.shape id = .ok (.subrange inner min max))
      (hinner : RangesOver types root inner) : RangesOver types root id

variable {types later : TypeStore} {id root : TypeId}

theorem shape_eq_map (types : TypeStore) (id : TypeId) :
    types.shape id = (types.find id).map TypeInfo.shape := by
  unfold shape
  cases types.find id <;> rfl

/-- The predefined types have the form that they start with. -/
theorem Reachable.shape_eq (hreachable : types.Reachable) (hid : id.index < 8) :
    types.shape id = TypeStore.predefined.shape id :=
  hreachable.keeps.shape_eq hid

/-- A value shows under a type that was added as the form of this type says. -/
theorem render_of_added {shape : TypeShape} (hid : 8 ≤ id.index)
    (hshape : types.shape id = .ok shape) (value : Value) (scopes : ScopeStore) :
    value.render id types scopes =
      match shape with
      | .stream => .ok none
      | .array layout => .ok (some (value.arrayText layout))
      | .record _ => .ok (some "<complex>")
      | _ => (value.ordinalText id types scopes).map some := by
  have hother (predefined : TypeId) (hless : predefined.index < 8) : id ≠ predefined := by
    rintro rfl
    omega
  simp only [Value.render, hshape, bind, Except.bind, hother .float (by decide),
    hother .char (by decide), hother .bool (by decide), if_false]
  cases shape with
  | stream | array _ | record _ => rfl
  | _ => cases value.ordinalText id types scopes <;> rfl

theorem Grounded.below (hgrounded : types.Grounded) {shape : TypeShape}
    (hshape : types.shape id = .ok shape) : shape.RefersBelow id.index := by
  obtain ⟨info, hfind, rfl⟩ := exists_find_of_shape hshape
  exact hgrounded id info hfind

/-- A type that is no subrange is its own base. -/
theorem base_eq_self {shape : TypeShape} (hshape : types.shape id = .ok shape)
    (hother : ∀ inner min max, shape ≠ .subrange inner min max) : types.base id = .ok id := by
  obtain ⟨info, hfind, rfl⟩ := exists_find_of_shape hshape
  rw [base_eq, hfind]
  simp only [bind, Except.bind]
  rfl

/-- The base of a subrange is that of the type that it is a subrange of. -/
theorem base_subrange {inner : TypeId} {min max : Int32}
    (hshape : types.shape id = .ok (.subrange inner min max)) :
    types.base id = types.base inner := by
  obtain ⟨info, hfind, hform⟩ := exists_find_of_shape hshape
  rw [base_eq, hfind]
  simp only [bind, Except.bind, hform]

/-- All types along a chain of subranges have the same base. -/
theorem RangesOver.same_base (hranges : types.RangesOver root id) :
    types.base id = types.base root := by
  induction hranges with
  | refl => rfl
  | subrange hshape hinner ih => rw [base_subrange hshape, ih]

theorem RangesOver.base_eq (hranges : types.RangesOver root id)
    (hroot : types.base root = .ok root) : types.base id = .ok root := by
  rw [hranges.same_base, hroot]

end ScopeMachine.TypeStore
