/-
# Following references from type to type

A question about a type may be handed on to a type that it refers to, and from there to
another. The types that it is handed on from are types that are there. If it comes to an end,
each of them has its own distance from the end, so there are no more of them than there are
types. A question that is followed for that long is therefore followed as far as it goes:
the base and the name of a type answer to the equations of a search without any bound.
-/

import Mathlib.Data.Fintype.Card
import Mathlib.Data.Nat.Find
import ScopeMachine.Types.Store

namespace ScopeMachine.TypeStore

/-! ## Questions that come to an end -/

/-- Following references for an answer came to an end, be it that one was missing. -/
def Ended {α : Type} (found : Except TypeRefusal α) : Prop :=
  found ≠ .error .endless

theorem Ended.bind {α β : Type} {first : Except TypeRefusal α}
    {rest : α → Except TypeRefusal β} (hfirst : Ended first)
    (hrest : ∀ answer, Ended (rest answer)) : Ended (first >>= rest) := by
  cases first with
  | ok answer => exact hrest answer
  | error refusal =>
      rintro ⟨⟩
      exact hfirst rfl

/-- Whatever is answered had an answer to what was asked first. -/
theorem exists_of_bind_eq_ok {α β : Type} {first : Except TypeRefusal α}
    {rest : α → Except TypeRefusal β} {answer : β} (hdone : (first >>= rest) = .ok answer) :
    ∃ middle, first = .ok middle ∧ rest middle = .ok answer := by
  cases first with
  | ok middle => exact ⟨middle, rfl, hdone⟩
  | error refusal => cases hdone

theorem ended_ok {α : Type} (answer : α) : Ended (.ok answer : Except TypeRefusal α) :=
  nofun

theorem ended_find (types : TypeStore) (id : TypeId) : Ended (types.find id) := by
  unfold find
  split <;> exact nofun

theorem ended_shape (types : TypeStore) (id : TypeId) : Ended (types.shape id) :=
  (types.ended_find id).bind fun info => ended_ok info.shape

/-! ## Links -/

/-- Links from the type come to an end, at most so many types further on. -/
def EndsWithin (next : TypeId → Option TypeId) : (steps : Nat) → TypeId → Prop
  | 0, _ => False
  | steps + 1, id => ∀ inner, next id = some inner → EndsWithin next steps inner

section Links

variable {next : TypeId → Option TypeId} {steps more count : Nat} {id inner : TypeId}

theorem EndsWithin.mono (hends : EndsWithin next steps id) (hle : steps ≤ more) :
    EndsWithin next more id := by
  induction steps generalizing more id with
  | zero => exact hends.elim
  | succ steps ih =>
      obtain ⟨more, rfl⟩ := Nat.exists_eq_add_of_le' hle
      exact fun inner hinner => ih (hends inner hinner) (Nat.le_add_left _ _)

/-- With fewer links there is no more to follow. -/
theorem EndsWithin.of_links {fewer : TypeId → Option TypeId}
    (hlinks : ∀ id inner, fewer id = some inner → next id = some inner)
    (hends : EndsWithin next steps id) : EndsWithin fewer steps id := by
  induction steps generalizing id with
  | zero => exact hends
  | succ steps ih => exact fun inner hinner => ih (hends inner (hlinks id inner hinner))

/-- On the way to the end, every distance that is left occurs once. -/
theorem exists_atDistance {far : Nat} (hends : EndsWithin next (far + 2) id)
    (hnear : ¬ EndsWithin next (far + 1) id) {near : Nat} (hle : near ≤ far) :
    ∃ other, (next other).isSome ∧ EndsWithin next (near + 2) other ∧
      ¬ EndsWithin next (near + 1) other := by
  induction far generalizing id with
  | zero =>
      obtain rfl := Nat.le_zero.mp hle
      obtain ⟨inner, hinner, -⟩ : ∃ inner, next id = some inner ∧ ¬ EndsWithin next 0 inner := by
        simpa only [EndsWithin, not_forall, exists_prop] using hnear
      exact ⟨id, Option.isSome_of_eq_some hinner, hends, hnear⟩
  | succ far ih =>
      obtain ⟨inner, hinner, hbeyond⟩ : ∃ inner, next id = some inner ∧
          ¬ EndsWithin next (far + 1) inner := by
        simpa only [EndsWithin, not_forall, exists_prop] using hnear
      rcases Nat.le_succ_iff.mp hle with hbefore | rfl
      · exact ih (hends inner hinner) hbeyond hbefore
      · exact ⟨id, Option.isSome_of_eq_some hinner, hends, hnear⟩

/-- Links that lead on from `count` types only come to an end that soon, if at all. -/
theorem EndsWithin.of_bound (hbound : ∀ id, (next id).isSome → id.index < count)
    (hends : EndsWithin next steps id) : EndsWithin next (count + 1) id := by
  classical
  have hex : ∃ steps, EndsWithin next steps id := ⟨steps, hends⟩
  by_contra hlater
  have hleast : EndsWithin next (Nat.find hex) id := Nat.find_spec hex
  have hbeyond : count + 1 < Nat.find hex := by
    by_contra hle
    exact hlater (hleast.mono (Nat.not_lt.mp hle))
  obtain ⟨far, hfar⟩ := Nat.exists_eq_add_of_le' (show 2 ≤ Nat.find hex by omega)
  have hnear : ¬ EndsWithin next (far + 1) id := Nat.find_min hex (by omega)
  rw [hfar] at hleast
  -- A type for every distance up to `count`: one more than links can lead on from.
  choose other hlinked hwithin hapart using fun near : Fin (count + 1) =>
    exists_atDistance hleast hnear (show near.val ≤ far by omega)
  let place : Fin (count + 1) → Fin count := fun near =>
    ⟨(other near).index, hbound _ (hlinked near)⟩
  have hplace : Function.Injective place := by
    intro first second hsame
    have hindex : (other first).index = (other second).index := Fin.val_eq_of_eq hsame
    have hother : other first = other second := congrArg TypeId.mk hindex
    have hle {near later : Fin (count + 1)} (heq : other near = other later) : later ≤ near := by
      by_contra hless
      have hless : near.val < later.val := Nat.not_le.mp hless
      exact hapart later (heq ▸ (hwithin near).mono (by omega))
    exact Fin.le_antisymm (hle hother.symm) (hle hother)
  have hcard := Fintype.card_le_of_injective place hplace
  simp only [Fintype.card_fin] at hcard
  omega

/-! ## Questions that are handed on -/

/-- A question that is handed on along links: where one leads on, the answer is made from the
answer there, and otherwise it does not depend on how far the links may be followed. -/
structure HandsOn {α : Type} (next : TypeId → Option TypeId)
    (ask : Nat → TypeId → Except TypeRefusal α) (wrap : TypeId → α → α) : Prop where
  exhausted : ∀ id, ask 0 id = .error .endless
  last : ∀ steps id, next id = none → ask (steps + 1) id = ask 1 id ∧ Ended (ask 1 id)
  linked : ∀ steps id inner, next id = some inner →
    ask (steps + 1) id = (ask steps inner).map (wrap id)

namespace HandsOn

variable {α : Type} {ask : Nat → TypeId → Except TypeRefusal α} {wrap : TypeId → α → α}
  (hasks : HandsOn next ask wrap)

include hasks

/-- The answer is missing just as long as the end is further away. -/
theorem eq_endless_iff : ask steps id = .error .endless ↔ ¬ EndsWithin next steps id := by
  induction steps generalizing id with
  | zero => simp [hasks.exhausted, EndsWithin]
  | succ steps ih =>
      cases hnext : next id with
      | none =>
          obtain ⟨hlast, hanswer⟩ := hasks.last steps id hnext
          rw [hlast]
          exact iff_of_false hanswer (by simp [EndsWithin, hnext])
      | some inner =>
          rw [hasks.linked steps id inner hnext]
          have hinner := @ih inner
          cases hask : ask steps inner with
          | error refusal => simpa [EndsWithin, hnext, hask, Except.map] using hinner
          | ok answer => simpa [EndsWithin, hnext, hask, Except.map] using hinner

/-- Once there is an answer, it stays. -/
theorem eq_of_le (hends : EndsWithin next steps id) (hle : steps ≤ more) :
    ask more id = ask steps id := by
  induction steps generalizing more id with
  | zero => exact hends.elim
  | succ steps ih =>
      obtain ⟨further, rfl⟩ := Nat.exists_eq_succ_of_ne_zero (show more ≠ 0 by omega)
      cases hnext : next id with
      | none => rw [(hasks.last further id hnext).1, (hasks.last steps id hnext).1]
      | some inner =>
          rw [hasks.linked further id inner hnext, hasks.linked steps id inner hnext]
          have hsame := ih (hends inner hnext) (Nat.le_of_succ_le_succ hle)
          rw [hsame]

/-- Following links from `count` types for longer than that changes no answer. -/
theorem saturated (hbound : ∀ id, (next id).isSome → id.index < count) (hmore : count < more) :
    ask more id = ask (count + 1) id := by
  by_cases hends : EndsWithin next (count + 1) id
  · exact hasks.eq_of_le hends hmore
  · have hlater : ¬ EndsWithin next more id := fun hmuch => hends (hmuch.of_bound hbound)
    rw [hasks.eq_endless_iff.mpr hlater, hasks.eq_endless_iff.mpr hends]

end HandsOn

end Links

/-! ## The base and the name of a type -/

/-- Where the question for the base of a type is handed on to. -/
def rangeLink (types : TypeStore) (id : TypeId) : Option TypeId :=
  match types.find id with
  | .ok { shape := .subrange inner _ _, .. } => some inner
  | _ => none

/-- Where the question for the name of a type is handed on to. -/
def nameLink (types : TypeStore) (id : TypeId) : Option TypeId :=
  match types.find id with
  | .ok { name := none, shape := .subrange inner _ _, .. } => some inner
  | .ok { name := none, shape := .array layout, .. } => some layout.element
  | _ => none

/-- What is made of the name of a type for the name of one that refers to it. -/
def extendName (types : TypeStore) (id : TypeId) (name : String) : String :=
  match types.find id with
  | .ok { shape := .array layout, .. } => name ++ "[" ++ toString layout.count ++ "]"
  | .ok { shape := .subrange _ min max, .. } =>
    name ++ "(" ++ toString min.toInt ++ ".." ++ toString max.toInt ++ ")"
  | _ => name

variable {types : TypeStore} {id : TypeId}

theorem lt_size_of_rangeLink (hlink : (types.rangeLink id).isSome) : id.index < types.size := by
  unfold rangeLink at hlink
  split at hlink
  · exact find_isOk_iff.mp ⟨_, ‹_›⟩
  · cases hlink

theorem lt_size_of_nameLink (hlink : (types.nameLink id).isSome) : id.index < types.size := by
  unfold nameLink at hlink
  split at hlink
  · exact find_isOk_iff.mp ⟨_, ‹_›⟩
  · exact find_isOk_iff.mp ⟨_, ‹_›⟩
  · cases hlink

theorem handsOn_baseWithin (types : TypeStore) :
    HandsOn types.rangeLink types.baseWithin fun _ base => base where
  exhausted _ := rfl
  last steps id hnext := by
    unfold rangeLink at hnext
    simp only [baseWithin]
    cases hfind : types.find id with
    | error refusal =>
        refine ⟨rfl, ?_⟩
        rintro ⟨⟩
        exact types.ended_find id hfind
    | ok info =>
        obtain ⟨name, size, shape, memberScope⟩ := info
        cases shape with
        | subrange inner min max => simp [hfind] at hnext
        | _ => exact ⟨rfl, ended_ok id⟩
  linked steps id inner hnext := by
    unfold rangeLink at hnext
    split at hnext
    · rename_i hfind
      cases hnext
      rw [baseWithin, hfind]
      simp only [bind, Except.bind]
      cases types.baseWithin steps inner <;> rfl
    · cases hnext

theorem handsOn_displayNameWithin (types : TypeStore) :
    HandsOn types.nameLink types.displayNameWithin types.extendName where
  exhausted _ := rfl
  last steps id hnext := by
    unfold nameLink at hnext
    simp only [displayNameWithin]
    cases hfind : types.find id with
    | error refusal =>
        refine ⟨rfl, ?_⟩
        rintro ⟨⟩
        exact types.ended_find id hfind
    | ok info =>
        obtain ⟨name, size, shape, memberScope⟩ := info
        cases name with
        | some name => exact ⟨rfl, ended_ok name⟩
        | none =>
            cases shape with
            | subrange inner min max => simp [hfind] at hnext
            | array layout => simp [hfind] at hnext
            | _ => exact ⟨rfl, ended_ok _⟩
  linked steps id inner hnext := by
    unfold nameLink at hnext
    split at hnext
    · rename_i hfind
      cases hnext
      simp only [displayNameWithin, hfind, bind, Except.bind]
      cases types.displayNameWithin steps inner with
      | error refusal => rfl
      | ok name => simp only [Except.map, extendName, hfind, pure, Except.pure]
    · rename_i hfind
      cases hnext
      simp only [displayNameWithin, hfind, bind, Except.bind]
      cases types.displayNameWithin steps _ with
      | error refusal => rfl
      | ok name => simp only [Except.map, extendName, hfind, pure, Except.pure]
    · cases hnext

theorem baseWithin_eq_base {steps : Nat} (hsteps : types.size < steps) :
    types.baseWithin steps id = types.base id :=
  types.handsOn_baseWithin.saturated (fun _ => lt_size_of_rangeLink) hsteps

theorem displayNameWithin_eq_displayName {steps : Nat} (hsteps : types.size < steps) :
    types.displayNameWithin steps id = types.displayName id :=
  types.handsOn_displayNameWithin.saturated (fun _ => lt_size_of_nameLink) hsteps

/-- The base of a type is that of the type behind it, or the type itself. -/
theorem base_eq (types : TypeStore) (id : TypeId) :
    types.base id = do
      let info ← types.find id
      match info.shape with
      | .subrange inner _ _ => types.base inner
      | _ => return id :=
  (baseWithin_eq_base (Nat.lt_add_of_pos_right Nat.two_pos)).symm

/-- A type is called as it is declared or as its form says. -/
theorem displayName_eq (types : TypeStore) (id : TypeId) :
    types.displayName id = do
      let info ← types.find id
      match info.name with
      | some name => return name
      | none =>
        match info.shape with
        | .array layout =>
          let element ← types.displayName layout.element
          return element ++ "[" ++ toString layout.count ++ "]"
        | .subrange inner min max =>
          let name ← types.displayName inner
          return name ++ "(" ++ toString min.toInt ++ ".." ++ toString max.toInt ++ ")"
        | shape => return shape.formName :=
  (displayNameWithin_eq_displayName (Nat.lt_add_of_pos_right Nat.two_pos)).symm

/-- No chain of subranges leads on for ever. -/
def ChainsEnd (types : TypeStore) : Prop :=
  ∀ id, ∃ steps, EndsWithin types.rangeLink steps id

/-- A chain of subranges that does not end is all that keeps the base of a type from being
found or found missing. -/
theorem base_eq_endless_iff :
    types.base id = .error .endless ↔ ∀ steps, ¬ EndsWithin types.rangeLink steps id := by
  rw [base, types.handsOn_baseWithin.eq_endless_iff]
  constructor
  · exact fun hnot steps hends => hnot (hends.of_bound fun _ => lt_size_of_rangeLink)
  · exact fun hnot => hnot _

theorem ChainsEnd.ended_base (hends : types.ChainsEnd) (id : TypeId) : Ended (types.base id) := by
  intro hbase
  obtain ⟨steps, hwithin⟩ := hends id
  exact base_eq_endless_iff.mp hbase steps hwithin

theorem ChainsEnd.ended_code (hends : types.ChainsEnd) (id : TypeId) : Ended (types.code id) :=
  (hends.ended_base id).bind fun base =>
    (types.ended_shape base).bind fun shape => ended_ok shape.code

end ScopeMachine.TypeStore
