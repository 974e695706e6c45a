/-
# Looking members up later on

The tables of installed members keep references to symbols, and the scopes that these are
in are scopes like all others: names can be entered into them, and they can be ranked
anew. Types are added all the time. Whatever is done, as long as no member scope is set
and no symbol is filled in by hand, every value whose type has members finds each of them
by its name, and finds what was installed.
-/

import ScopeMachine.Proofs.Members.AllOrNothing
import ScopeMachine.Proofs.Scopes.Retained
import ScopeMachine.Proofs.Types.Ranges

namespace ScopeMachine

/-! ## Types with members and without -/

namespace TypeStore

/-- Values of the type have the members of `owner`. -/
inductive Receives (types : TypeStore) : (owner : MemberOwner) → TypeId → Prop
  | scalar {id root : TypeId} (hroot : root ∈ TypeId.scalars)
      (hranges : types.RangesOver root id) : Receives types .scalar id
  | array {id : TypeId} {layout : ArrayLayout} (hshape : types.shape id = .ok (.array layout)) :
      Receives types .scalar id
  | stream : Receives types .stream .stream

/-- Values of the type have no members. -/
inductive Memberless (types : TypeStore) (id : TypeId) : Prop
  | enumeration {constants : List SymbolRef}
      (hshape : types.shape id = .ok (.enumeration constants))
  | record {fields : Option ScopeIndex} (hshape : types.shape id = .ok (.record fields))
  | void (hshape : types.shape id = .ok .void)

/-- No member scope is set on the way to the later types. -/
def SetsNoScope (types later : TypeStore) : Prop :=
  ∀ id scope, later.memberScope id = .ok (some scope) → types.memberScope id = .ok (some scope)

variable {types later : TypeStore} {id root : TypeId}

/-- A type that is added without a member scope. -/
theorem setsNoScope_allocate {info : TypeInfo} (hinfo : info.memberScope = none) :
    types.SetsNoScope (types.allocate info).2 := by
  intro id scope hscope
  obtain ⟨found, hfind, hset⟩ := exists_find_of_memberScope hscope
  rcases find_of_allocate hfind with ⟨-, rfl⟩ | hold
  · rw [hinfo] at hset
    cases hset
  · rw [memberScope_eq hold, hset]

theorem plain_predefined (id : TypeId) (info : TypeInfo)
    (hfind : TypeStore.predefined.find id = .ok info) : info.memberScope = none :=
  (plain_of_find_predefined hfind).2

/-- A type that is there is there later on, and has a member scope if it had one. -/
theorem Makes.exists_find (hmakes : types.Makes later) {info : TypeInfo}
    (hfind : types.find id = .ok info) :
    ∃ kept, later.find id = .ok kept ∧
      (info.memberScope.isSome → kept.memberScope.isSome) := by
  have hallocate (added : TypeInfo) : ∃ kept, (types.allocate added).2.find id = .ok kept ∧
      (info.memberScope.isSome → kept.memberScope.isSome) := by
    refine ⟨info, ?_, fun hsome => hsome⟩
    rw [find_allocate_of_lt _ _ (find_isOk_iff.mp ⟨info, hfind⟩)]
    exact hfind
  cases hmakes with
  | array hmade =>
      obtain ⟨inner, -, -, rfl⟩ := array_eq_ok hmade
      exact hallocate _
  | enumeration name constants => exact hallocate _
  | subrange hmade =>
      obtain ⟨inner, -, -, rfl⟩ := subrange_eq_ok hmade
      exact hallocate _
  | record name size fields => exact hallocate _
  | allocate added hthere => exact hallocate added
  | memberScope hmade =>
      rw [find_setMemberScope hmade, hfind]
      refine ⟨_, rfl, fun hsome => ?_⟩
      split
      · rfl
      · exact hsome

end TypeStore

/-! ## Member scopes of installed members -/

namespace MemberTables

open TypeStore

/-- The member scopes are those of installed members and no others. -/
structure Scopes (tables : MemberTables) (types : TypeStore) : Prop where
  reachable : types.Reachable
  listed : ∀ id info, types.find id = .ok info →
    info.memberScope = id.owner?.map tables.scopeOf

variable {tables : MemberTables} {types later : TypeStore} {id : TypeId}

namespace Scopes

theorem makes (hscopes : tables.Scopes types) (hmakes : types.Makes later)
    (hplain : types.SetsNoScope later) : tables.Scopes later where
  reachable := hmakes.reachable hscopes.reachable
  listed id info hfind := by
    cases hscope : info.memberScope with
    | some scope =>
        have hset := hplain id scope (by rw [memberScope_eq hfind, hscope])
        obtain ⟨known, hold, hsame⟩ := exists_find_of_memberScope hset
        rw [← hscopes.listed id known hold, hsame]
    | none =>
        cases howner : id.owner? with
        | none => rfl
        | some owner =>
            -- A type of scalars or streams was there before, and has kept its member scope.
            have hless : id.index < types.size := by
              by_contra hbeyond
              have hnone := TypeId.owner?_of_le
                (Nat.le_trans hscopes.reachable.size_le (Nat.le_of_not_lt hbeyond))
              rw [hnone] at howner
              cases howner
            obtain ⟨known, hknown⟩ := find_isOk_iff.mpr hless
            obtain ⟨kept, hkept, hsome⟩ := hmakes.exists_find hknown
            rw [hfind] at hkept
            cases hkept
            rw [hscopes.listed id known hknown, howner, hscope] at hsome
            cases hsome rfl

variable (hscopes : tables.Scopes types)

include hscopes

theorem memberScope_eq {shape : TypeShape} (hshape : types.shape id = .ok shape) :
    types.memberScope id = .ok (id.owner?.map tables.scopeOf) := by
  obtain ⟨info, hfind, -⟩ := exists_find_of_shape hshape
  rw [TypeStore.memberScope_eq hfind, hscopes.listed id info hfind]

/-- The types that have members are those of their forms. -/
theorem owner?_eq_none {shape : TypeShape} (hshape : types.shape id = .ok shape)
    (hscalar : ∀ code, shape ≠ .scalar code) (hstream : shape ≠ .stream) :
    id.owner? = none := by
  by_contra howner
  have hless : id.index < 8 := by
    by_contra hbeyond
    exact howner (TypeId.owner?_of_le (Nat.le_of_not_lt hbeyond))
  rw [hscopes.reachable.shape_eq hless] at hshape
  have hform : id ∈ TypeId.scalars ∨ id = .stream := by
    unfold TypeId.owner? at howner
    by_contra hneither
    push Not at hneither
    rw [if_neg hneither.1, if_neg hneither.2] at howner
    exact howner rfl
  simp only [TypeId.scalars, List.mem_cons, List.not_mem_nil, or_false] at hform
  rcases hform with (rfl | rfl | rfl | rfl | rfl | rfl) | rfl <;> cases hshape
  case inr => exact hstream rfl
  all_goals exact hscalar _ rfl

theorem shape_scalar {root : TypeId} (hroot : root ∈ TypeId.scalars) :
    ∃ code, types.shape root = .ok (.scalar code) := by
  have hless : root.index < 8 := (by decide : ∀ id ∈ TypeId.scalars, id.index < 8) root hroot
  rw [hscopes.reachable.shape_eq hless]
  simp only [TypeId.scalars, List.mem_cons, List.not_mem_nil, or_false] at hroot
  rcases hroot with rfl | rfl | rfl | rfl | rfl | rfl <;> exact ⟨_, rfl⟩

/-- Values whose type has members find them in the scope with these. -/
theorem scopeFor_of_receives {owner : MemberOwner} (hreceives : types.Receives owner id) :
    tables.scopeFor types id = .ok (some (tables.scopeOf owner)) := by
  unfold scopeFor
  cases hreceives with
  | @scalar id root hroot hranges =>
      obtain ⟨code, hscalar⟩ := hscopes.shape_scalar hroot
      have howner : root.owner? = some .scalar := if_pos hroot
      have hown := hscopes.memberScope_eq hscalar
      rw [howner] at hown
      cases hranges with
      | refl =>
          simp only [hown, bind, Except.bind]
          rfl
      | subrange hshape hinner =>
          -- Subranges have no member scope; the base is found through all of them at once.
          have hbase := hinner.base_eq (base_eq_self hscalar nofun)
          rw [← base_subrange hshape] at hbase
          have hnone := hscopes.memberScope_eq hshape
          rw [hscopes.owner?_eq_none hshape nofun nofun] at hnone
          simp only [hnone, hbase, hown, bind, Except.bind]
          rfl
  | array hshape =>
      have hnone := hscopes.memberScope_eq hshape
      rw [hscopes.owner?_eq_none hshape nofun nofun] at hnone
      simp only [hnone, base_eq_self hshape nofun, hshape, bind, Except.bind]
      rfl
  | stream =>
      have hshape : types.shape .stream = .ok .stream := hscopes.reachable.shape_eq (by decide)
      have hown := hscopes.memberScope_eq hshape
      simp only [hown, bind, Except.bind]
      rfl

/-- Values whose type has none find no scope to look in. -/
theorem scopeFor_of_memberless (hmemberless : types.Memberless id) :
    tables.scopeFor types id = .ok none := by
  have hlookup {shape : TypeShape} (hshape : types.shape id = .ok shape)
      (hother : ∀ inner min max, shape ≠ .subrange inner min max)
      (hscalar : ∀ code, shape ≠ .scalar code) (hstream : shape ≠ .stream)
      (harray : ∀ layout, shape ≠ .array layout) : tables.scopeFor types id = .ok none := by
    have hnone := hscopes.memberScope_eq hshape
    rw [hscopes.owner?_eq_none hshape hscalar hstream] at hnone
    unfold scopeFor
    simp only [hnone, base_eq_self hshape hother, hshape, bind, Except.bind]
    rfl
  cases hmemberless with
  | enumeration hshape => exact hlookup hshape nofun nofun nofun nofun
  | record hshape => exact hlookup hshape nofun nofun nofun nofun
  | void hshape => exact hlookup hshape nofun nofun nofun nofun

end Scopes

/-! ## Later on -/

/-- A name that a symbol has is found in the scope of the symbol. -/
theorem lookup_eq {declarations : Declarations} (hmaintained : declarations.scopes.Maintained)
    {receiver : TypeId} {ref : SymbolRef} {symbol : Symbol}
    (hscopeFor : tables.scopeFor declarations.types receiver = .ok (some ref.scope))
    (hsymbol : declarations.scopes.symbol ref = .ok symbol) :
    tables.lookup declarations receiver symbol.name = .ok (some ref) := by
  obtain ⟨scope, hscope, hentry⟩ := ScopeStore.symbol_eq_ok_iff.mp hsymbol
  have hfound := ScopeStore.scope_eq_ok_iff.mpr hscope
  have hsearch := ((hmaintained.scope_maintained hfound).wellFormed.searched symbol.name
    ref.entry).mpr ⟨symbol, hentry, rfl⟩
  unfold lookup
  simp only [hscopeFor, bind, Except.bind, hfound, hsearch, Option.map_some, Scope.ref,
    hmaintained.index_eq hfound]
  rfl

/-- Where the scope of a symbol is ranked, its address leads back to it. -/
theorem exists_address {store : ScopeStore} (hmaintained : store.Maintained) {ref : SymbolRef}
    {symbol : Symbol} {scope : Scope} (hsymbol : store.symbol ref = .ok symbol)
    (hscope : store.scope ref.scope = .ok scope) (hflattened : scope.isFlattened) :
    ∃ addr, store.address ref = .ok addr ∧ store.resolve addr = .ok ref := by
  cases haddress : store.address ref with
  | ok addr =>
      have hplace := hmaintained.address_eq_ok_iff.mp haddress
      exact ⟨addr, rfl, hmaintained.resolve_eq_ok_iff.mpr hplace⟩
  | error refusal =>
      obtain ⟨-, other, hother, hunranked⟩ :=
        (hmaintained.address_eq_error_iff hsymbol).mp haddress
      rw [hscope] at hother
      cases hother
      exact absurd hflattened hunranked

theorem lookup_of_scopeFor {declarations : Declarations} {receiver : TypeId}
    (hscopeFor : tables.scopeFor declarations.types receiver = .ok none) (name : String) :
    tables.lookup declarations receiver name = .ok none := by
  unfold lookup
  simp only [hscopeFor, bind, Except.bind]
  rfl

end MemberTables

/-- Declarations to which something was done: requests to the symbol tables that fill in
nothing, and types that were made without a member scope being set. -/
inductive Declarations.Continues : Declarations → Declarations → Prop
  | refl {declarations : Declarations} : Continues declarations declarations
  | request {declarations last : Declarations} (request : ScopeStore.Request)
      (hrequest : ¬ request.FillsIn)
      (hrest : Continues { declarations with scopes := request.after declarations.scopes } last) :
      Continues declarations last
  | makes {declarations last : Declarations} {types : TypeStore}
      (hmakes : declarations.types.Makes types) (hplain : declarations.types.SetsNoScope types)
      (hrest : Continues { declarations with types } last) : Continues declarations last

namespace MemberTables

variable {tables : MemberTables} {before later last : Declarations}

theorem Scopes.continues (hcontinues : later.Continues last)
    (hscopes : tables.Scopes later.types) : tables.Scopes last.types := by
  induction hcontinues with
  | refl => exact hscopes
  | request request hrequest hrest ih => exact ih hscopes
  | makes hmakes hplain hrest ih => exact ih (hscopes.makes hmakes hplain)

end MemberTables

theorem Declarations.Continues.retains {later last : Declarations}
    (hcontinues : later.Continues last) (hmaintained : later.scopes.Maintained) :
    later.scopes.Retains last.scopes := by
  induction hcontinues with
  | refl => exact .refl hmaintained
  | request request hrequest hrest ih =>
      have hfirst := hmaintained.retains_after hrequest
      exact hfirst.trans (ih hfirst.maintained)
  | makes hmakes hplain hrest ih => exact ih hmaintained

namespace MemberTables

variable {tables : MemberTables} {before later last : Declarations}

/-- If no type had a member scope, those of installed members are the only ones. -/
theorem Installed.scopes_types (hinstalled : Installed before tables later)
    (hbefore : before.types.Reachable) (hlater : later.types.Reachable)
    (hfree : ∀ id info, before.types.find id = .ok info → info.memberScope = none) :
    tables.Scopes later.types where
  reachable := hlater
  listed id info hfind := by
    by_cases hthere : id.index < before.types.size
    · obtain ⟨old, hold⟩ := TypeStore.find_isOk_iff.mpr hthere
      rw [hinstalled.types id hthere, hold] at hfind
      cases hfind
      have hnone := hfree id old hold
      cases id.owner? with
      | none => exact hnone
      | some owner => rfl
    · have hbeyond := Nat.le_of_not_lt hthere
      rw [TypeId.owner?_of_le (Nat.le_trans hbefore.size_le hbeyond)]
      exact hinstalled.added id info hbeyond hfind

theorem reachable_of_install {context : Context} (hbefore : before.Maintained)
    (hinstall : install context before = .ok tables later) : later.types.Reachable := by
  have hyields := yields_install hbefore context
  unfold InstallM.Yields at hyields
  rw [hinstall] at hyields
  exact hyields.1.types

/-- Members that were installed where no type had a member scope are found for good. Every
member keeps its symbol with the name, the type and the routine that it was installed with;
values of every type with members find it by its name; and wherever the scope with it is
ranked, its address leads back to it. Enumerations, records and no value at all have no
members. -/
theorem members_stay_found (context : Context) (hbefore : before.Maintained)
    (hfree : ∀ id info, before.types.find id = .ok info → info.memberScope = none)
    (hinstall : install context before = .ok tables later) (hcontinues : later.Continues last) :
    (∀ owner, ∀ member ∈ Member.ofOwner owner, ∃ ref installed kept,
      tables.symbol? member = some ref ∧ installed.name = member.name ∧
      later.scopes.symbol ref = .ok installed ∧ last.scopes.symbol ref = .ok kept ∧
      installed.SeenAgain kept ∧
      (∀ receiver, last.types.Receives owner receiver →
        tables.lookup last receiver member.name = .ok (some ref)) ∧
      ∀ scope, last.scopes.scope ref.scope = .ok scope → scope.isFlattened →
        ∃ addr, last.scopes.address ref = .ok addr ∧ last.scopes.resolve addr = .ok ref) ∧
    ∀ receiver, last.types.Memberless receiver →
      ∀ name, tables.lookup last receiver name = .ok none := by
  have hinstalled := installed_of_install hbefore.scopes hbefore.types.size_le hinstall
  have hreachable := reachable_of_install hbefore hinstall
  have hscopes : tables.Scopes last.types :=
    (hinstalled.scopes_types hbefore.types hreachable hfree).continues hcontinues
  have hretains := hcontinues.retains hinstalled.maintained
  constructor
  · intro owner member hmember
    obtain ⟨ref, installed, hlisted, hplace, hsymbol, hnames⟩ :=
      hinstalled.holds.members owner member hmember
    obtain ⟨kept, hkept, hseen⟩ := hretains.symbols ref installed hsymbol
    have hname : kept.name = member.name := by rw [hseen, hnames.name]
    refine ⟨ref, installed, kept, hlisted, hnames.name, hsymbol, hkept, hseen, ?_, ?_⟩
    · intro receiver hreceives
      have hscopeFor := hscopes.scopeFor_of_receives hreceives
      rw [← hplace] at hscopeFor
      rw [← hname]
      exact lookup_eq hretains.maintained hscopeFor hkept
    · intro scope hscope hflattened
      exact exists_address hretains.maintained hkept hscope hflattened
  · intro receiver hmemberless name
    exact lookup_of_scopeFor (hscopes.scopeFor_of_memberless hmemberless) name

/-- In a new session members are installed. Then another name is entered next to those of
the scalar values, and the type of arrays of three integers is made. Such an array has a
length. -/
theorem members_stay_found_array :
    ∃ tables later id types ref, install {} {} = .ok tables later ∧
      later.types.array .int 3 = .ok (id, types) ∧ tables.symbol? .length = some ref ∧
      tables.lookup
        ⟨(ScopeStore.Request.enter tables.scalarScope "parity" {}).after later.scopes, types⟩ id
        "length" = .ok (some ref) := by
  have hmaintained : ({} : Declarations).Maintained := ⟨.empty, .predefined⟩
  obtain ⟨tables, later, hinstall⟩ := exists_install {} hmaintained.scopes (by decide)
    not_hasMembers_predefined (by decide)
  have hreachable := reachable_of_install hmaintained hinstall
  obtain ⟨info, hinfo⟩ := TypeStore.find_isOk_iff.mpr
    (Nat.lt_of_lt_of_le (by decide : TypeId.int.index < 8) hreachable.size_le)
  have hmade : ∃ made, later.types.array .int 3 = .ok made := by
    simp only [TypeStore.array, hinfo, bind, Except.bind]
    exact ⟨_, rfl⟩
  obtain ⟨⟨id, types⟩, hmade⟩ := hmade
  obtain ⟨inner, hinner, hid, htypes⟩ := TypeStore.array_eq_ok hmade
  have hplain : later.types.SetsNoScope types := by
    rw [htypes]
    exact TypeStore.setsNoScope_allocate rfl
  have hcontinues : later.Continues
      ⟨(ScopeStore.Request.enter tables.scalarScope "parity" {}).after later.scopes, types⟩ :=
    .request (.enter tables.scalarScope "parity" {}) (fun hfillsIn => hfillsIn)
      (.makes (.array hmade) hplain .refl)
  obtain ⟨hmembers, -⟩ := members_stay_found {} hmaintained TypeStore.plain_predefined hinstall
    hcontinues
  obtain ⟨ref, -, -, hlisted, -, -, -, -, hfound, -⟩ := hmembers .scalar .length (by decide)
  have hshape : types.shape id = .ok (.array ⟨.int, 3, 3⟩) := by
    rw [TypeStore.shape_eq_map, hid, htypes]
    exact congrArg (Except.map TypeInfo.shape) (TypeStore.find_allocate_self _ _)
  exact ⟨tables, later, id, types, ref, hinstall, hmade, hlisted, hfound id (.array hshape)⟩

end MemberTables

end ScopeMachine
