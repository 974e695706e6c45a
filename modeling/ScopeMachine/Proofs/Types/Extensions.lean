/-
# Types that others are added to

Running code adds to the types and never takes one back, so later types begin with the
earlier ones. A type that was there is described as it was, and so is everything behind it
that was there. Whatever was asked about it is therefore answered as before, however many
types have been added, unless the answer waits for a type that was missing. Setting a member
scope changes the one answer that is about it and no other.
-/

import ScopeMachine.Proofs.Types.Grounded

namespace ScopeMachine.TypeStore

/-- The later types describe every type that was there as before, but for its member
scope. -/
def Keeps (types later : TypeStore) : Prop :=
  ∀ id info, types.find id = .ok info →
    ∃ scope, later.find id = .ok { info with memberScope := scope }

/-- The later types begin with these types. -/
def Extends (types later : TypeStore) : Prop :=
  types.infos.toList <+: later.infos.toList

/-- The answer does not wait for a type that is missing. -/
def Settled {α : Type} (answer : Except TypeRefusal α) : Prop :=
  ∀ missing, answer ≠ .error (.unknown missing)

/-- Whatever is asked about the type has the same answer among the later types. Where
references lead to a type that is not there yet, there is no answer to be kept. -/
structure Preserves (types later : TypeStore) (id : TypeId) : Prop where
  described : later.find id = types.find id
  membered : later.memberScope id = types.memberScope id
  sized : later.sizeOf id = types.sizeOf id
  shaped : later.shape id = types.shape id
  based : Settled (types.base id) → later.base id = types.base id
  coded : Settled (types.code id) → later.code id = types.code id
  named : Settled (types.displayName id) → later.displayName id = types.displayName id

variable {types middle later : TypeStore} {id : TypeId}

/-! ## Types that are kept -/

theorem settled_ok {α : Type} {answer : α} : Settled (.ok answer) :=
  fun _ => nofun

/-- Whatever needs an answer first is settled only if that is. -/
theorem Settled.of_bind {α β : Type} {first : Except TypeRefusal α}
    {rest : α → Except TypeRefusal β} (hsettled : Settled (first >>= rest)) : Settled first := by
  rintro missing rfl
  exact hsettled missing rfl

theorem find_eq_unknown (hid : types.size ≤ id.index) : types.find id = .error (.unknown id) := by
  have hnone : types.infos[id.index]? = none := Array.getElem?_eq_none hid
  rw [find, hnone]

/-- A settled question is about a type that is there. -/
theorem Settled.exists_find {α : Type} {rest : TypeInfo → Except TypeRefusal α}
    (hsettled : Settled (types.find id >>= rest)) : ∃ info, types.find id = .ok info := by
  by_cases hid : id.index < types.size
  · exact find_isOk_iff.mpr hid
  · exact absurd (find_eq_unknown (Nat.not_lt.mp hid)) (hsettled.of_bind id)

/-- The base of a type is a type that is there. -/
theorem base_lt_size {inner : TypeId} (hbase : types.base id = .ok inner) :
    inner.index < types.size := by
  rw [base] at hbase
  generalize types.size + 1 = steps at hbase
  induction steps generalizing id with
  | zero => cases hbase
  | succ steps ih =>
      rw [baseWithin] at hbase
      obtain ⟨info, hfind, hbase⟩ := exists_of_bind_eq_ok hbase
      split at hbase
      · exact ih hbase
      · cases hbase
        exact find_isOk_iff.mp ⟨info, hfind⟩

namespace Keeps

theorem refl (types : TypeStore) : types.Keeps types :=
  fun _ info hinfo => ⟨info.memberScope, hinfo⟩

theorem trans (hfirst : types.Keeps middle) (hsecond : middle.Keeps later) :
    types.Keeps later := by
  intro id info hinfo
  obtain ⟨scope, hmiddle⟩ := hfirst id info hinfo
  obtain ⟨again, hlater⟩ := hsecond id _ hmiddle
  exact ⟨again, hlater⟩

theorem allocate (types : TypeStore) (info : TypeInfo) : types.Keeps (types.allocate info).2 := by
  intro id found hfound
  refine ⟨found.memberScope, ?_⟩
  rw [find_allocate_of_lt types info (find_isOk_iff.mp ⟨found, hfound⟩), hfound]

theorem setMemberScope {scope : ScopeIndex} (hmade : types.setMemberScope id scope = .ok later) :
    types.Keeps later := by
  intro other info hinfo
  refine ⟨if other = id then some scope else info.memberScope, ?_⟩
  rw [find_setMemberScope hmade, hinfo]
  simp only [Except.map]
  split <;> rfl

theorem shape_eq (hkeeps : types.Keeps later) (hid : id.index < types.size) :
    later.shape id = types.shape id := by
  obtain ⟨info, hinfo⟩ := find_isOk_iff.mpr hid
  obtain ⟨scope, hlater⟩ := hkeeps id info hinfo
  rw [shape_of_find hlater, shape_of_find hinfo]

theorem sizeOf_eq (hkeeps : types.Keeps later) (hid : id.index < types.size) :
    later.sizeOf id = types.sizeOf id := by
  obtain ⟨info, hinfo⟩ := find_isOk_iff.mpr hid
  obtain ⟨scope, hlater⟩ := hkeeps id info hinfo
  rw [sizeOf_of_find hlater, sizeOf_of_find hinfo]

theorem baseWithin_eq (hkeeps : types.Keeps later) {steps : Nat}
    (hsettled : Settled (types.baseWithin steps id)) :
    later.baseWithin steps id = types.baseWithin steps id := by
  induction steps generalizing id with
  | zero => rfl
  | succ steps ih =>
      obtain ⟨info, hinfo⟩ := hsettled.exists_find
      obtain ⟨scope, hlater⟩ := hkeeps id info hinfo
      rw [baseWithin, hinfo] at hsettled
      rw [baseWithin, baseWithin, hlater, hinfo]
      simp only [bind, Except.bind] at hsettled ⊢
      cases hshape : info.shape with
      | subrange inner min max =>
          rw [hshape] at hsettled
          exact ih hsettled
      | _ => rfl

/-- What is behind a chain of subranges stays the same. -/
theorem base_eq (hkeeps : types.Keeps later) (hsettled : Settled (types.base id)) :
    later.base id = types.base id := by
  -- The later types allow for more steps, which makes no difference to either.
  have hsteps : types.size < types.size + later.size + 1 := by omega
  have hlater : later.size < types.size + later.size + 1 := by omega
  rw [← baseWithin_eq_base hsteps] at hsettled ⊢
  rw [← baseWithin_eq_base hlater, hkeeps.baseWithin_eq hsettled]

theorem code_eq (hkeeps : types.Keeps later) (hsettled : Settled (types.code id)) :
    later.code id = types.code id := by
  rw [code, code, hkeeps.base_eq hsettled.of_bind]
  cases hbase : types.base id with
  | error refusal => rfl
  | ok base =>
      simp only [bind, Except.bind]
      rw [hkeeps.shape_eq (base_lt_size hbase)]

theorem displayNameWithin_eq (hkeeps : types.Keeps later) {steps : Nat}
    (hsettled : Settled (types.displayNameWithin steps id)) :
    later.displayNameWithin steps id = types.displayNameWithin steps id := by
  induction steps generalizing id with
  | zero => rfl
  | succ steps ih =>
      obtain ⟨info, hinfo⟩ := hsettled.exists_find
      obtain ⟨scope, hlater⟩ := hkeeps id info hinfo
      rw [displayNameWithin, hinfo] at hsettled
      rw [displayNameWithin, displayNameWithin, hlater, hinfo]
      simp only [bind, Except.bind] at hsettled ⊢
      cases hname : info.name with
      | some name => rfl
      | none =>
          cases hshape : info.shape with
          | array layout =>
              rw [hname, hshape] at hsettled
              simp only [ih hsettled.of_bind]
          | subrange inner min max =>
              rw [hname, hshape] at hsettled
              simp only [ih hsettled.of_bind]
          | _ => rfl

/-- Names that follow the form of a type stay the same. -/
theorem displayName_eq (hkeeps : types.Keeps later) (hsettled : Settled (types.displayName id)) :
    later.displayName id = types.displayName id := by
  have hsteps : types.size < types.size + later.size + 1 := by omega
  have hlater : later.size < types.size + later.size + 1 := by omega
  rw [← displayNameWithin_eq_displayName hsteps] at hsettled ⊢
  rw [← displayNameWithin_eq_displayName hlater, hkeeps.displayNameWithin_eq hsettled]

end Keeps

/-- Types that were made from the predefined ones keep these. -/
theorem Reachable.keeps (hreachable : types.Reachable) : TypeStore.predefined.Keeps types := by
  induction hreachable with
  | predefined => exact .refl _
  | allocate info hreachable hthere ih => exact ih.trans (.allocate _ info)
  | memberScope hreachable hmade ih => exact ih.trans (.setMemberScope hmade)

/-! ## Types that are only added to -/

namespace Extends

theorem refl (types : TypeStore) : types.Extends types :=
  List.prefix_refl _

theorem trans (hfirst : types.Extends middle) (hsecond : middle.Extends later) :
    types.Extends later :=
  List.IsPrefix.trans hfirst hsecond

theorem allocate (types : TypeStore) (info : TypeInfo) :
    types.Extends (types.allocate info).2 := by
  rw [Extends, TypeStore.allocate, Array.toList_push]
  exact List.prefix_append _ _

theorem size_le (hextends : types.Extends later) : types.size ≤ later.size :=
  List.IsPrefix.length_le hextends

/-- A type that was there is described as before. -/
theorem find_eq (hextends : types.Extends later) (hid : id.index < types.size) :
    later.find id = types.find id := by
  obtain ⟨added, hadded⟩ := hextends
  rw [find, find, ← Array.getElem?_toList, ← Array.getElem?_toList, ← hadded,
    List.getElem?_append_left hid]

theorem keeps (hextends : types.Extends later) : types.Keeps later := by
  intro id info hinfo
  refine ⟨info.memberScope, ?_⟩
  rw [hextends.find_eq (find_isOk_iff.mp ⟨info, hinfo⟩), hinfo]

end Extends

/-- Adding types changes nothing about those that were there. -/
theorem Extends.preserves (hextends : types.Extends later) (hid : id.index < types.size) :
    types.Preserves later id where
  described := hextends.find_eq hid
  membered := by rw [memberScope, memberScope, hextends.find_eq hid]
  sized := hextends.keeps.sizeOf_eq hid
  shaped := hextends.keeps.shape_eq hid
  based := hextends.keeps.base_eq
  coded := hextends.keeps.code_eq
  named := hextends.keeps.displayName_eq

end ScopeMachine.TypeStore
