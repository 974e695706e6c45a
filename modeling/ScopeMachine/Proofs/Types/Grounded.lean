/-
# Grounded types

A subrange or an array is made from a type that is there already. In types that
only the operations of this library made, every such reference therefore leads to
an earlier type. The types are grounded, and whatever is asked of a type that is
there has an answer.
-/

import Mathlib.Tactic.SplitIfs
import ScopeMachine.Proofs.Types.Following
import ScopeMachine.Trace.Render

namespace ScopeMachine

/-- The types that a form refers to come before `index`. -/
def TypeShape.RefersBelow (shape : TypeShape) (index : Nat) : Prop :=
  match shape with
  | .subrange base _ _ => base.index < index
  | .array layout => layout.element.index < index
  | _ => True

/-- The form refers to no type. -/
def TypeShape.IsPlain : TypeShape → Prop
  | .subrange _ _ _ => False
  | .array _ => False
  | _ => True

theorem TypeShape.IsPlain.refersBelow {shape : TypeShape} (hplain : shape.IsPlain)
    (index : Nat) : shape.RefersBelow index := by
  cases shape with
  | subrange | array => exact absurd hplain not_false
  | _ => trivial

namespace TypeStore

/-- Types that were made from the predefined ones by adding descriptions, each of
which refers to types that are there already, and by setting member scopes. -/
inductive Reachable : TypeStore → Prop
  | predefined : Reachable .predefined
  | allocate {types : TypeStore} (info : TypeInfo) (hreachable : Reachable types)
      (hthere : info.shape.RefersBelow types.size) : Reachable (types.allocate info).2
  | memberScope {types later : TypeStore} {id : TypeId} {scope : ScopeIndex}
      (hreachable : Reachable types) (hmade : types.setMemberScope id scope = .ok later) :
      Reachable later

/-- Every type refers to earlier types only. -/
def Grounded (types : TypeStore) : Prop :=
  ∀ id info, types.find id = .ok info → info.shape.RefersBelow id.index

variable {types later : TypeStore} {id : TypeId} {info : TypeInfo}

theorem memberScope_eq (hfind : types.find id = .ok info) :
    types.memberScope id = .ok info.memberScope := by
  simp only [memberScope, hfind]
  rfl

/-- A type whose member scope can be told is there. -/
theorem exists_find_of_memberScope {scope : Option ScopeIndex}
    (hscope : types.memberScope id = .ok scope) :
    ∃ info, types.find id = .ok info ∧ info.memberScope = scope := by
  rw [memberScope] at hscope
  obtain ⟨info, hfind, hinfo⟩ := exists_of_bind_eq_ok hscope
  exact ⟨info, hfind, Except.ok.inj hinfo⟩

theorem shape_of_find (hfind : types.find id = .ok info) : types.shape id = .ok info.shape := by
  simp only [shape, hfind]
  rfl

theorem sizeOf_of_find (hfind : types.find id = .ok info) : types.sizeOf id = .ok info.size := by
  simp only [sizeOf, hfind]
  rfl

/-- A type that has a form is there. -/
theorem exists_find_of_shape {form : TypeShape} (hshape : types.shape id = .ok form) :
    ∃ info, types.find id = .ok info ∧ info.shape = form := by
  rw [shape] at hshape
  obtain ⟨info, hfind, hinfo⟩ := exists_of_bind_eq_ok hshape
  exact ⟨info, hfind, Except.ok.inj hinfo⟩

/-- The predefined types refer to no type and have no member scope. -/
theorem plain_of_find_predefined (hfind : TypeStore.predefined.find id = .ok info) :
    info.shape.IsPlain ∧ info.memberScope = none := by
  have hmem : info ∈ TypeStore.predefined.infos.toList :=
    Array.mem_toList_iff.mpr (Array.mem_of_getElem? (find_eq_ok_iff.mp hfind))
  simp only [TypeStore.predefined, List.mem_cons, List.not_mem_nil, or_false] at hmem
  rcases hmem with rfl | rfl | rfl | rfl | rfl | rfl | rfl | rfl <;> exact ⟨trivial, rfl⟩

/-- With a description added, a type is the added one or was there before. -/
theorem find_of_allocate {added : TypeInfo} (hfind : (types.allocate added).2.find id = .ok info) :
    (id.index = types.size ∧ info = added) ∨ types.find id = .ok info := by
  rw [find_eq_ok_iff] at hfind
  simp only [TypeStore.allocate, Array.getElem?_push] at hfind
  split at hfind
  · rename_i hlast
    cases hfind
    exact .inl ⟨hlast, rfl⟩
  · exact .inr (find_eq_ok_iff.mpr hfind)

@[simp]
theorem size_allocate : (types.allocate info).2.size = types.size + 1 := by
  simp [size, allocate]

/-- An added type has the form that was added. -/
theorem shape_allocate_self :
    (types.allocate info).2.shape (types.allocate info).1 = .ok info.shape :=
  shape_of_find (find_allocate_self types info)

/-- A type that was there keeps its form. -/
theorem shape_allocate {form : TypeShape} (hshape : types.shape id = .ok form) :
    (types.allocate info).2.shape id = .ok form := by
  obtain ⟨found, hfind, rfl⟩ := exists_find_of_shape hshape
  apply shape_of_find
  rw [find_allocate_of_lt types info (find_isOk_iff.mp ⟨found, hfind⟩), hfind]

/-! ## Reachable types are grounded -/

theorem Grounded.allocate (hgrounded : types.Grounded)
    (hinfo : info.shape.RefersBelow types.size) : (types.allocate info).2.Grounded := by
  intro id found hfound
  rcases find_of_allocate hfound with ⟨hlast, rfl⟩ | hold
  · rw [hlast]
    exact hinfo
  · exact hgrounded id found hold

/-- An array is a description added to the types. -/
theorem array_eq_ok {element : TypeId} {count : Nat}
    (hmade : types.array element count = .ok (id, later)) :
    ∃ inner, types.find element = .ok inner ∧ id = ⟨types.size⟩ ∧
      later = (types.allocate
        { name := none, size := min (inner.size * count) sizeLimit,
          shape := .array ⟨element, count, count⟩ }).2 := by
  rw [array] at hmade
  obtain ⟨inner, hfind, hmade⟩ := exists_of_bind_eq_ok hmade
  cases hmade
  exact ⟨inner, hfind, rfl, rfl⟩

/-- A subrange is a description added to the types. -/
theorem subrange_eq_ok {base : TypeId} {min max : Int32}
    (hmade : types.subrange base min max = .ok (id, later)) :
    ∃ inner, types.find base = .ok inner ∧ id = ⟨types.size⟩ ∧
      later = (types.allocate
        { name := none, size := inner.size, shape := .subrange base min max }).2 := by
  rw [subrange] at hmade
  obtain ⟨inner, hfind, hmade⟩ := exists_of_bind_eq_ok hmade
  cases hmade
  exact ⟨inner, hfind, rfl, rfl⟩

/-- Setting a member scope changes no form and no number. -/
theorem setMemberScope_eq_ok {scope : ScopeIndex}
    (hmade : types.setMemberScope id scope = .ok later) :
    later.infos =
      types.infos.modify id.index fun info => { info with memberScope := some scope } := by
  rw [TypeStore.setMemberScope] at hmade
  obtain ⟨_, -, hmade⟩ := exists_of_bind_eq_ok hmade
  cases hmade
  rfl

/-- A member scope that is set changes nothing else. -/
theorem find_setMemberScope {scope : ScopeIndex} (hmade : types.setMemberScope id scope = .ok later)
    (other : TypeId) :
    later.find other = (types.find other).map fun info =>
      if other = id then { info with memberScope := some scope } else info := by
  simp only [find, setMemberScope_eq_ok hmade, Array.getElem?_modify]
  by_cases hsame : other = id
  · subst hsame
    cases types.infos[other.index]? <;> simp [Except.map]
  · have hindex : id.index ≠ other.index := fun hindex => hsame (congrArg TypeId.mk hindex.symm)
    cases types.infos[other.index]? <;> simp [Except.map, hsame, hindex]

theorem size_setMemberScope {scope : ScopeIndex}
    (hmade : types.setMemberScope id scope = .ok later) : later.size = types.size := by
  rw [size, setMemberScope_eq_ok hmade, Array.size_modify]
  rfl

theorem Grounded.setMemberScope {scope : ScopeIndex} (hgrounded : types.Grounded)
    (hmade : types.setMemberScope id scope = .ok later) : later.Grounded := by
  intro other found hfound
  rw [find_eq_ok_iff, setMemberScope_eq_ok hmade, Array.getElem?_modify] at hfound
  split at hfound
  · obtain ⟨kept, hkept, rfl⟩ := Option.map_eq_some_iff.mp hfound
    exact hgrounded other kept (find_eq_ok_iff.mpr hkept)
  · exact hgrounded other found (find_eq_ok_iff.mpr hfound)

theorem Reachable.array {element : TypeId} {count : Nat} (hreachable : types.Reachable)
    (hmade : types.array element count = .ok (id, later)) : later.Reachable := by
  obtain ⟨inner, hfind, -, rfl⟩ := array_eq_ok hmade
  exact hreachable.allocate _ (find_isOk_iff.mp ⟨inner, hfind⟩)

theorem Reachable.subrange {base : TypeId} {min max : Int32} (hreachable : types.Reachable)
    (hmade : types.subrange base min max = .ok (id, later)) : later.Reachable := by
  obtain ⟨inner, hfind, -, rfl⟩ := subrange_eq_ok hmade
  exact hreachable.allocate _ (find_isOk_iff.mp ⟨inner, hfind⟩)

/-- Types that were made from the predefined ones are grounded. -/
theorem Reachable.grounded (hreachable : types.Reachable) : types.Grounded := by
  induction hreachable with
  | predefined =>
      intro id info hinfo
      exact (plain_of_find_predefined hinfo).1.refersBelow id.index
  | allocate info hreachable hthere ih => exact ih.allocate hthere
  | memberScope hreachable hmade ih => exact ih.setMemberScope hmade

/-- The predefined types stay. -/
theorem Reachable.size_le (hreachable : types.Reachable) : 8 ≤ types.size := by
  induction hreachable with
  | predefined => decide
  | allocate info hreachable hthere ih =>
      rw [size_allocate]
      omega
  | memberScope hreachable hmade ih => rwa [size_setMemberScope hmade]

/-- An array of characters can always be added. -/
theorem Reachable.exists_charArray (hreachable : types.Reachable) (count : Nat) :
    ∃ made, types.array .char count = .ok made := by
  have hchar : TypeId.char.index < types.size := Nat.lt_of_lt_of_le (by decide) hreachable.size_le
  obtain ⟨inner, hfind⟩ := find_isOk_iff.mpr hchar
  exact ⟨_, by rw [TypeStore.array, hfind]; rfl⟩

/-! ## Questions about grounded types have answers -/

theorem exists_shape (hid : id.index < types.size) : ∃ shape, types.shape id = .ok shape := by
  obtain ⟨info, hinfo⟩ := find_isOk_iff.mpr hid
  exact ⟨info.shape, shape_of_find hinfo⟩

/-- Chains of subranges end in a type that is there. -/
theorem Grounded.exists_base (hgrounded : types.Grounded) (hid : id.index < types.size) :
    ∃ base, types.base id = .ok base ∧ base.index < types.size := by
  induction hindex : id.index using Nat.strongRecOn generalizing id with
  | ind index ih =>
      obtain ⟨info, hinfo⟩ := find_isOk_iff.mpr hid
      have hbelow := hgrounded id info hinfo
      rw [base_eq, hinfo]
      cases hshape : info.shape with
      | subrange inner min max =>
          rw [hshape] at hbelow
          have hless : inner.index < id.index := hbelow
          obtain ⟨found, hfound, hsize⟩ := ih inner.index (hindex ▸ hless)
            (Nat.lt_trans hless hid) rfl
          exact ⟨found, by simpa [bind, Except.bind, hshape] using hfound, hsize⟩
      | _ => exact ⟨id, by simp [bind, Except.bind, hshape, pure, Except.pure], hid⟩

/-- Chains that lead to earlier types only come to an end. -/
theorem Grounded.chainsEnd (hgrounded : types.Grounded) : types.ChainsEnd := by
  intro id
  by_cases hid : id.index < types.size
  · obtain ⟨base, hbase, -⟩ := hgrounded.exists_base hid
    by_contra hnone
    rw [base_eq_endless_iff.mpr (not_exists.mp hnone)] at hbase
    cases hbase
  · refine ⟨1, fun inner hinner => ?_⟩
    exact absurd (lt_size_of_rangeLink (Option.isSome_of_eq_some hinner)) hid

/-- Chains go on to come to an end as a type is added that is no subrange. -/
theorem ChainsEnd.allocate (hends : types.ChainsEnd)
    (hother : ∀ inner min max, info.shape ≠ .subrange inner min max) :
    (types.allocate info).2.ChainsEnd := by
  intro id
  obtain ⟨steps, hwithin⟩ := hends id
  refine ⟨steps, hwithin.of_links fun id inner hlink => ?_⟩
  unfold rangeLink at hlink ⊢
  split at hlink
  · rename_i hfind
    rcases find_of_allocate hfind with ⟨-, rfl⟩ | hold
    · exact absurd rfl (hother _ _ _)
    · rw [hold]
      exact hlink
  · cases hlink

/-- Rendering a value asks for nothing but forms and the ends of chains. -/
theorem ChainsEnd.ended_render (hends : types.ChainsEnd) (value : Value) (id : TypeId)
    (scopes : ScopeStore) : Ended (value.render id types scopes) := by
  apply (types.ended_shape id).bind
  intro shape
  have hordinal : Ended (value.ordinalText id types scopes) := by
    apply (hends.ended_base id).bind
    intro base
    apply (types.ended_shape base).bind
    intro shape
    cases shape <;> exact ended_ok _
  split_ifs
  · exact ended_ok _
  · cases value <;> exact ended_ok _
  · cases value <;> exact ended_ok _
  · exact ended_ok _
  · cases shape with
    | array | record => exact ended_ok _
    | _ => exact hordinal.bind fun text => ended_ok _

/-- A value has a text, or none, under any type that is there. -/
theorem Grounded.exists_render (hgrounded : types.Grounded) (hid : id.index < types.size)
    (value : Value) (scopes : ScopeStore) :
    ∃ text, value.render id types scopes = .ok text := by
  obtain ⟨shape, hshape⟩ := exists_shape hid
  have hordinal : ∃ text, value.ordinalText id types scopes = .ok text := by
    obtain ⟨base, hbase, hsize⟩ := hgrounded.exists_base hid
    obtain ⟨baseShape, hbaseShape⟩ := exists_shape hsize
    unfold Value.ordinalText
    simp only [hbase, hbaseShape, bind, Except.bind]
    cases baseShape <;> exact ⟨_, rfl⟩
  obtain ⟨text, htext⟩ := hordinal
  unfold Value.render
  simp only [hshape, htext, bind, Except.bind]
  split_ifs
  · exact ⟨_, rfl⟩
  · cases value <;> exact ⟨_, rfl⟩
  · cases value <;> exact ⟨_, rfl⟩
  · exact ⟨_, rfl⟩
  · cases shape <;> exact ⟨_, rfl⟩

end TypeStore

end ScopeMachine
