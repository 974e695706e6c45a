/-
# Where the references of types lead

A subrange refers to the type that it is a subrange of, and an array to the type of its
elements. The base of a type is where its chain of subranges ends, and its name is read off
the forms of types to the end. In grounded types references are well-founded, so there is
always an end: every question about a type that is there has an answer. Making another type
needs nothing but types that are there, and takes nothing away from those.
-/

import ScopeMachine.Proofs.Types.Ranges

namespace ScopeMachine

namespace TypeStore

/-- The second type refers to the first. -/
inductive Refers (types : TypeStore) : TypeId → TypeId → Prop
  | subrange {id inner : TypeId} {min max : Int32}
      (hshape : types.shape id = .ok (.subrange inner min max)) : Refers types inner id
  | array {id : TypeId} {layout : ArrayLayout}
      (hshape : types.shape id = .ok (.array layout)) : Refers types layout.element id

/-- The chain of subranges from the type ends at `root`, which is no subrange. -/
structure EndsAt (types : TypeStore) (root id : TypeId) : Prop where
  ranges : types.RangesOver root id
  shape : ∃ shape, types.shape root = .ok shape ∧ ∀ inner min max, shape ≠ .subrange inner min max

/-- What a type is called, wherever its references lead: its declared name, or a text that
follows its form. -/
inductive Called (types : TypeStore) : TypeId → String → Prop
  | declared {id : TypeId} {info : TypeInfo} {name : String} (hfind : types.find id = .ok info)
      (hname : info.name = some name) : Called types id name
  | array {id : TypeId} {info : TypeInfo} {layout : ArrayLayout} {element : String}
      (hfind : types.find id = .ok info) (hname : info.name = none)
      (hform : info.shape = .array layout) (helement : Called types layout.element element) :
      Called types id (element ++ "[" ++ toString layout.count ++ "]")
  | subrange {id inner : TypeId} {info : TypeInfo} {min max : Int32} {name : String}
      (hfind : types.find id = .ok info) (hname : info.name = none)
      (hform : info.shape = .subrange inner min max) (hinner : Called types inner name) :
      Called types id (name ++ "(" ++ toString min.toInt ++ ".." ++ toString max.toInt ++ ")")
  | form {id : TypeId} {info : TypeInfo} (hfind : types.find id = .ok info)
      (hname : info.name = none) (hplain : info.shape.IsPlain) :
      Called types id info.shape.formName

variable {types : TypeStore} {id inner root : TypeId} {name : String}

theorem EndsAt.base_self (hends : types.EndsAt root id) : types.base root = .ok root := by
  obtain ⟨shape, hshape, hother⟩ := hends.shape
  exact base_eq_self hshape hother

/-- The base that is found is where the chain of subranges ends. -/
theorem endsAt_of_base (hroot : types.base id = .ok root) : types.EndsAt root id := by
  rw [base] at hroot
  generalize types.size + 1 = steps at hroot
  induction steps generalizing id with
  | zero => cases hroot
  | succ steps ih =>
      rw [baseWithin] at hroot
      obtain ⟨info, hfind, hroot⟩ := exists_of_bind_eq_ok hroot
      have hshape := shape_of_find hfind
      cases hform : info.shape with
      | subrange inner min max =>
          rw [hform] at hroot hshape
          obtain ⟨hranges, hend⟩ := ih hroot
          exact ⟨.subrange hshape hranges, hend⟩
      | _ =>
          rw [hform] at hroot hshape
          cases hroot
          refine ⟨.refl, _, hshape, ?_⟩
          rintro _ _ _ ⟨⟩

/-- The base of a type is where its chain of subranges ends. -/
theorem base_eq_iff : types.base id = .ok root ↔ types.EndsAt root id :=
  ⟨endsAt_of_base, fun hends => hends.ranges.base_eq hends.base_self⟩

theorem displayName_of_called (hcalled : types.Called id name) :
    types.displayName id = .ok name := by
  induction hcalled with
  | declared hfind hname =>
      rw [displayName_eq, hfind]
      simp only [bind, Except.bind, hname]
      rfl
  | array hfind hname hform helement ih =>
      rw [displayName_eq, hfind]
      simp only [bind, Except.bind, hname, hform, ih]
      rfl
  | subrange hfind hname hform hinner ih =>
      rw [displayName_eq, hfind]
      simp only [bind, Except.bind, hname, hform, ih]
      rfl
  | @form _ info hfind hname hplain =>
      rw [displayName_eq, hfind]
      simp only [bind, Except.bind, hname]
      cases hform : info.shape with
      | subrange | array => exact absurd hplain (by rw [hform]; exact not_false)
      | _ => rfl

/-- The name that is found is read off to the end. -/
theorem called_of_displayName (hname : types.displayName id = .ok name) :
    types.Called id name := by
  rw [displayName] at hname
  generalize types.size + 1 = steps at hname
  induction steps generalizing id name with
  | zero => cases hname
  | succ steps ih =>
      rw [displayNameWithin] at hname
      obtain ⟨info, hfind, hname⟩ := exists_of_bind_eq_ok hname
      cases hdeclared : info.name with
      | some declared =>
          rw [hdeclared] at hname
          cases hname
          exact .declared hfind hdeclared
      | none =>
          rw [hdeclared] at hname
          cases hform : info.shape with
          | array layout =>
              rw [hform] at hname
              obtain ⟨element, helement, hname⟩ := exists_of_bind_eq_ok hname
              cases hname
              exact .array hfind hdeclared hform (ih helement)
          | subrange inner min max =>
              rw [hform] at hname
              obtain ⟨called, hinner, hname⟩ := exists_of_bind_eq_ok hname
              cases hname
              exact .subrange hfind hdeclared hform (ih hinner)
          | _ =>
              rw [hform] at hname
              cases hname
              exact hform ▸ .form hfind hdeclared (by rw [hform]; trivial)

/-- A type is called what its form and its references say. -/
theorem displayName_eq_iff : types.displayName id = .ok name ↔ types.Called id name :=
  ⟨called_of_displayName, displayName_of_called⟩

namespace Grounded

variable (hgrounded : types.Grounded)

include hgrounded

theorem lt_of_refers (hrefers : types.Refers inner id) : inner.index < id.index := by
  cases hrefers with
  | subrange hshape => exact hgrounded.below hshape
  | array hshape => exact hgrounded.below hshape

/-- References do not go on for ever. -/
theorem wellFounded_refers : WellFounded types.Refers :=
  Subrelation.wf hgrounded.lt_of_refers (InvImage.wf TypeId.index Nat.lt_wfRel.wf)

/-- A chain of subranges leads down. -/
theorem le_of_rangesOver (hranges : types.RangesOver root id) : root.index ≤ id.index := by
  induction hranges with
  | refl => exact Nat.le_refl _
  | subrange hshape hinner ih => exact Nat.le_trans ih (Nat.le_of_lt (hgrounded.below hshape))

theorem exists_called (hid : id.index < types.size) : ∃ name, types.Called id name := by
  induction id using hgrounded.wellFounded_refers.induction with
  | _ id ih =>
      obtain ⟨info, hinfo⟩ := find_isOk_iff.mpr hid
      have hshape := shape_of_find hinfo
      have hearlier {inner : TypeId} (hrefers : types.Refers inner id) :
          ∃ name, types.Called inner name :=
        ih inner hrefers (Nat.lt_trans (hgrounded.lt_of_refers hrefers) hid)
      cases hname : info.name with
      | some name => exact ⟨name, .declared hinfo hname⟩
      | none =>
          cases hform : info.shape with
          | array layout =>
              obtain ⟨element, helement⟩ := hearlier (.array (hform ▸ hshape))
              exact ⟨_, .array hinfo hname hform helement⟩
          | subrange inner min max =>
              obtain ⟨name, hinner⟩ := hearlier (.subrange (hform ▸ hshape))
              exact ⟨_, .subrange hinfo hname hform hinner⟩
          | _ => exact ⟨_, .form hinfo hname (by rw [hform]; trivial)⟩

/-- Names that follow the form of a type come to an end, since the form refers to earlier
types. -/
theorem exists_displayName (hid : id.index < types.size) :
    ∃ name, types.displayName id = .ok name := by
  obtain ⟨name, hcalled⟩ := hgrounded.exists_called hid
  exact ⟨name, displayName_of_called hcalled⟩

end Grounded

/-! ## Questions about the types of a session -/

/-- One type more, or another member scope. Subranges, arrays and descriptions are made
of types that are there. -/
inductive Makes (types : TypeStore) : TypeStore → Prop
  | array {element id : TypeId} {count : Nat} {later : TypeStore}
      (hmade : types.array element count = .ok (id, later)) : Makes types later
  | enumeration (name : String) (constants : List SymbolRef) :
      Makes types (types.enumeration name constants).2
  | subrange {base id : TypeId} {min max : Int32} {later : TypeStore}
      (hmade : types.subrange base min max = .ok (id, later)) : Makes types later
  | record (name : String) (size : Nat) (fields : Option ScopeIndex) :
      Makes types (types.record name size fields).2
  | allocate (info : TypeInfo) (hthere : info.shape.RefersBelow types.size) :
      Makes types (types.allocate info).2
  | memberScope {id : TypeId} {scope : ScopeIndex} {later : TypeStore}
      (hmade : types.setMemberScope id scope = .ok later) : Makes types later

/-- Every question about a type has an answer. -/
structure Answers (types : TypeStore) (scopes : ScopeStore) (id : TypeId) : Prop where
  described : ∃ info, types.find id = .ok info
  sized : ∃ size, types.sizeOf id = .ok size
  shaped : ∃ shape, types.shape id = .ok shape
  based : ∃ base, types.base id = .ok base ∧ base.index < types.size
  coded : ∃ code, types.code id = .ok code
  compared : ∃ answer, types.isCharArray id = .ok answer
  membered : ∃ scope, types.memberScope id = .ok scope
  named : ∃ name, types.displayName id = .ok name
  rendered : ∀ value : Value, ∃ text, value.render id types scopes = .ok text

variable {later : TypeStore}

theorem Makes.reachable (hmakes : types.Makes later) (hreachable : types.Reachable) :
    later.Reachable := by
  cases hmakes with
  | array hmade => exact hreachable.array hmade
  | enumeration name constants => exact hreachable.allocate _ trivial
  | subrange hmade => exact hreachable.subrange hmade
  | record name size fields => exact hreachable.allocate _ trivial
  | allocate info hthere => exact hreachable.allocate info hthere
  | memberScope hmade => exact hreachable.memberScope hmade

theorem Grounded.exists_code (hgrounded : types.Grounded) (hid : id.index < types.size) :
    ∃ code, types.code id = .ok code := by
  obtain ⟨base, hbase, hless⟩ := hgrounded.exists_base hid
  obtain ⟨shape, hshape⟩ := exists_shape hless
  refine ⟨shape.code, ?_⟩
  simp only [code, hbase, hshape, bind, Except.bind]
  rfl

/-- Every question about a type that is there has an answer. -/
theorem Reachable.answers (hreachable : types.Reachable) (scopes : ScopeStore)
    (hid : id.index < types.size) : types.Answers scopes id := by
  obtain ⟨info, hinfo⟩ := find_isOk_iff.mpr hid
  have hasked {α : Type} (ask : TypeInfo → α) :
      ∃ answer, (do let info ← types.find id; return ask info) = Except.ok answer := by
    rw [hinfo]
    exact ⟨ask info, rfl⟩
  obtain ⟨shape, hshape⟩ := exists_shape hid
  exact {
    described := ⟨info, hinfo⟩
    sized := hasked TypeInfo.size
    shaped := ⟨shape, hshape⟩
    based := hreachable.grounded.exists_base hid
    coded := hreachable.grounded.exists_code hid
    compared := by
      rw [isCharArray, hshape]
      exact ⟨_, rfl⟩
    membered := hasked TypeInfo.memberScope
    named := hreachable.grounded.exists_displayName hid
    rendered := fun value => hreachable.grounded.exists_render hid value scopes }

end TypeStore

end ScopeMachine
