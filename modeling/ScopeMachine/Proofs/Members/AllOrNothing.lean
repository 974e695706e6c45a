/-
# Installing the members is all or nothing

Installing is refused if the members are there already, and if there are not numbers
left for all the scopes that it makes. No type has another member scope then. Otherwise
it goes through, and every scalar type and the stream type get the scope with their
members, with everything in it that belongs to a member. Scopes and types that were there
before are as they were in any case.
-/

import ScopeMachine.Proofs.Members.Entering
import ScopeMachine.Proofs.Members.Installing
import ScopeMachine.Proofs.Scopes.Capacities

namespace ScopeMachine

open Declarations

/-! ## Member scopes -/

/-- The values whose members are looked up in the member scope of a type. -/
def TypeId.owner? (id : TypeId) : Option MemberOwner :=
  if id ∈ scalars then some .scalar else if id = stream then some .stream else none

theorem TypeId.owner?_of_le {id : TypeId} (hid : 8 ≤ id.index) : id.owner? = none := by
  have hscalar : id ∉ scalars := fun hmem =>
    absurd ((by decide : ∀ id ∈ scalars, id.index < 8) id hmem) (Nat.not_lt.mpr hid)
  have hstream : id ≠ stream := by
    rintro rfl
    exact absurd hid (by decide)
  rw [owner?, if_neg hscalar, if_neg hstream]

/-- The scope with the members of some values. -/
def MemberTables.scopeOf (tables : MemberTables) : MemberOwner → ScopeIndex
  | .scalar => tables.scalarScope
  | .stream => tables.streamScope

namespace TypeStore

variable {types later : TypeStore} {id : TypeId} {scope : ScopeIndex}

/-- Members are there for integers or for streams. -/
def HasMembers (types : TypeStore) : Prop :=
  (∃ scope, types.memberScope .int = .ok (some scope)) ∨
    ∃ scope, types.memberScope .stream = .ok (some scope)

theorem areInstalled_eq (htypes : 8 ≤ types.size) :
    ∃ installed, MemberTables.areInstalled types = .ok installed ∧
      (installed = true ↔ types.HasMembers) := by
  have hint : TypeId.int.index < types.size := Nat.lt_of_lt_of_le (by decide) htypes
  have hstream : TypeId.stream.index < types.size := Nat.lt_of_lt_of_le (by decide) htypes
  obtain ⟨int, hint⟩ := find_isOk_iff.mpr hint
  obtain ⟨stream, hstream⟩ := find_isOk_iff.mpr hstream
  refine ⟨int.memberScope.isSome || stream.memberScope.isSome, ?_, ?_⟩
  · simp only [MemberTables.areInstalled, memberScope_eq hint, memberScope_eq hstream]
    rfl
  · simp [HasMembers, memberScope_eq hint, memberScope_eq hstream, Option.isSome_iff_exists]

theorem exists_setMemberScope (hid : id.index < types.size) (scope : ScopeIndex) :
    ∃ later, types.setMemberScope id scope = .ok later := by
  obtain ⟨info, hinfo⟩ := find_isOk_iff.mpr hid
  exact ⟨_, by simp only [setMemberScope, hinfo]; rfl⟩

end TypeStore

namespace InstallM

variable {scopes : ScopeStore} {types : TypeStore}

theorem exists_setMemberScopes (scopes : ScopeStore) (ids : List TypeId) (scope : ScopeIndex)
    (hids : ∀ id ∈ ids, id.index < types.size) :
    ∃ later, (ids.forM fun id => setMemberScope id scope) ⟨scopes, types⟩ =
        .ok () ⟨scopes, later⟩ ∧ ∀ other,
      later.find other = (types.find other).map fun info =>
        if other ∈ ids then { info with memberScope := some scope } else info := by
  induction ids generalizing types with
  | nil => exact ⟨types, rfl, fun other => by cases types.find other <;> simp [Except.map]⟩
  | cons id rest ih =>
      obtain ⟨here, hhere⟩ := TypeStore.exists_setMemberScope (hids id List.mem_cons_self) scope
      have hfind := TypeStore.find_setMemberScope hhere
      have hsize : here.size = types.size := TypeStore.size_setMemberScope hhere
      obtain ⟨later, hlater, hrest⟩ := ih fun other hother =>
        hsize ▸ hids other (List.mem_cons_of_mem _ hother)
      refine ⟨later, ?_, fun other => ?_⟩
      · show EStateM.bind (setMemberScope id scope)
          (fun _ => rest.forM fun id => setMemberScope id scope) ⟨scopes, types⟩ = _
        simp only [EStateM.bind, setMemberScope, hhere]
        exact hlater
      · rw [hrest, hfind]
        cases types.find other with
        | error refusal => rfl
        | ok info =>
            simp only [Except.map, List.mem_cons]
            by_cases hfirst : other = id <;> by_cases hlast : other ∈ rest <;>
              simp [hfirst, hlast]

/-- Work on the symbol tables for several things in turn that goes through without the types
goes through with them. -/
theorem forM_onScopes {α : Type} {work : α → ScopeM Unit} {items : List α}
    {types : TypeStore} {later : ScopeStore}
    (hdone : items.forM work scopes = .ok () later) :
    items.forM (fun item => onScopes (work item)) ⟨scopes, types⟩ = .ok () ⟨later, types⟩ := by
  induction items generalizing scopes with
  | nil =>
      cases hdone
      rfl
  | cons first rest ih =>
      replace hdone : EStateM.bind (work first) (fun _ => rest.forM work) scopes = .ok () later :=
        hdone
      show EStateM.bind (onScopes (work first))
        (fun _ => rest.forM fun item => onScopes (work item)) ⟨scopes, types⟩ = _
      cases hfirst : work first scopes with
      | error refusal here =>
          simp only [EStateM.bind, hfirst] at hdone
          cases hdone
      | ok answer here =>
          simp only [EStateM.bind, hfirst] at hdone
          simp only [EStateM.bind, onScopes, hfirst]
          exact ih hdone

/-- Ranking the symbols of some scopes changes nothing else. -/
theorem exists_flatten_all (types : TypeStore) (indices : List ScopeIndex)
    (hscopes : scopes.Maintained)
    (hthere : ∀ index ∈ indices, index.val < scopes.size) :
    ∃ later, (indices.forM fun index => onScopes (ScopeStore.flatten index)) ⟨scopes, types⟩ =
        .ok () ⟨later, types⟩ ∧ later.Maintained ∧ later.size = scopes.size ∧
      ∀ index scope, scopes.scope index = .ok scope →
        ∃ ranked, later.scope index = .ok ranked ∧ ranked.symbols = scope.symbols ∧
          (index ∉ indices → ranked = scope) ∧
          (index ∈ indices ∨ scope.isFlattened → ranked.isFlattened) := by
  obtain ⟨later, hlater, hranked⟩ := hscopes.exists_flatten_each hthere
  exact ⟨later, forM_onScopes hlater, hranked⟩

end InstallM

/-- Scopes and types were only added, and what is there has the member scopes that it had. -/
structure Declarations.Extends (before later : Declarations) : Prop where
  scopes : ∀ index scope, before.scopes.scope index = .ok scope →
    later.scopes.scope index = .ok scope
  types : ∀ id info, before.types.find id = .ok info → later.types.find id = .ok info
  added : ∀ id info, before.types.size ≤ id.index → later.types.find id = .ok info →
    info.memberScope = none

namespace MemberTables

/-- The scopes of either kind of values hold the names of their members and no others, and
every member has its symbol there. Scopes for parameters come behind those that were there
before and the two for members, in the order of the members. -/
structure Holds (tables : MemberTables) (before : Nat) (declarations : Declarations) : Prop where
  names : ∀ owner, ∃ scope, declarations.scopes.scope (tables.scopeOf owner) = .ok scope ∧
    scope.symbolNames = (Member.ofOwner owner).map Member.name
  members : ∀ owner, ∀ member ∈ Member.ofOwner owner, ∃ ref symbol,
    tables.symbol? member = some ref ∧ ref.scope = tables.scopeOf owner ∧
      declarations.scopes.symbol ref = .ok symbol ∧
      declarations.Names member (before + 2 + member.scopesBefore (Member.ofOwner owner)) symbol

/-- What has become of the declarations `before` when the members are installed. -/
structure Installed (before : Declarations) (tables : MemberTables) (later : Declarations) :
    Prop where
  holds : tables.Holds before.scopes.size later
  maintained : later.scopes.Maintained
  /-- There are eight scopes more, the first of them for the members of scalar values and the
  second for those of streams. -/
  size : later.scopes.size = before.scopes.size + 8
  scalarScope : tables.scalarScope = ⟨before.scopes.size⟩
  streamScope : tables.streamScope = ⟨before.scopes.size + 1⟩
  /-- Scopes that were there are as they were. -/
  scopes : ∀ index scope, before.scopes.scope index = .ok scope →
    later.scopes.scope index = .ok scope
  /-- All others are ranked. -/
  flattened : ∀ index scope, before.scopes.size ≤ index.val →
    later.scopes.scope index = .ok scope → scope.isFlattened
  /-- Types that were there are as they were, but for the member scopes of the scalar types
  and the stream type. -/
  types : ∀ id, id.index < before.types.size →
    later.types.find id = (before.types.find id).map fun info =>
      match id.owner? with
      | some owner => { info with memberScope := some (tables.scopeOf owner) }
      | none => info
  /-- All others have no member scope. -/
  added : ∀ id info, before.types.size ≤ id.index → later.types.find id = .ok info →
    info.memberScope = none

/-- Everything is entered, and neither are the member scopes set nor the new scopes ranked. -/
structure Filled (before : Declarations) (tables : MemberTables) (here : Declarations) :
    Prop where
  holds : tables.Holds before.scopes.size here
  grows : before.Grows (before.scopes.size ≤ ·.val) here
  size : here.scopes.size = before.scopes.size + 8
  scalarScope : tables.scalarScope = ⟨before.scopes.size⟩
  streamScope : tables.streamScope = ⟨before.scopes.size + 1⟩

variable {before here later : Declarations} {tables : MemberTables}

theorem Holds.keeps {count : Nat} (hholds : tables.Holds count here)
    (hkeeps : here.Keeps (fun _ => True) later) : tables.Holds count later where
  names owner := by
    obtain ⟨scope, hscope, hnames⟩ := hholds.names owner
    obtain ⟨kept, hkept, hsymbols⟩ := hkeeps.scopes _ scope trivial hscope
    exact ⟨kept, hkept, by rw [Scope.symbolNames, hsymbols]; exact hnames⟩
  members owner member hmember := by
    obtain ⟨ref, symbol, hlisted, hplace, hsymbol, hnames⟩ := hholds.members owner member hmember
    obtain ⟨scope, hscope, hentry⟩ := ScopeStore.symbol_eq_ok_iff.mp hsymbol
    obtain ⟨kept, hkept, hsymbols⟩ :=
      hkeeps.scopes _ scope trivial (ScopeStore.scope_eq_ok_iff.mpr hscope)
    refine ⟨ref, symbol, hlisted, hplace, ?_, hkeeps.names trivial hnames⟩
    refine ScopeStore.symbol_eq_ok_iff.mpr ⟨kept, ScopeStore.scope_eq_ok_iff.mp hkept, ?_⟩
    rw [Scope.symbol?, hsymbols]
    exact hentry

theorem not_mem_streams_of_mem_scalars :
    ∀ member ∈ Member.scalars, member ∉ Member.streams := by
  decide

theorem nodup_names (owner : MemberOwner) :
    ((Member.ofOwner owner).map Member.name).Nodup := by
  cases owner <;> decide

theorem length_ofOwner_le (owner : MemberOwner) :
    (Member.ofOwner owner).length ≤ Scope.capacity := by
  cases owner <;> decide

/-- The member scopes that are set, those of the scalar types and then that of streams. -/
theorem owner?_eq (tables : MemberTables) (id : TypeId) (info : TypeInfo) :
    (if id = .stream then
      { (if id ∈ TypeId.scalars then { info with memberScope := some tables.scalarScope }
        else info : TypeInfo) with memberScope := some tables.streamScope }
    else if id ∈ TypeId.scalars then { info with memberScope := some tables.scalarScope }
      else info) =
      match id.owner? with
      | some owner => { info with memberScope := some (tables.scopeOf owner) }
      | none => info := by
  by_cases hscalar : id ∈ TypeId.scalars
  · have hother : id ≠ .stream := by
      rintro rfl
      exact absurd hscalar (by decide)
    simp [TypeId.owner?, hscalar, hother, scopeOf]
  · by_cases hstream : id = .stream
    · subst hstream
      simp [TypeId.owner?, hscalar, scopeOf]
    · simp [TypeId.owner?, hscalar, hstream]

/-- A member that was entered is listed. -/
theorem Enters.exists_listed {index : ScopeIndex} {scope : Scope} {members : List Member}
    {entered : List (Member × SymbolRef)} {made : List ScopeIndex}
    (henters : Enters index scope here members entered made later) {member : Member}
    (hmember : member ∈ members) :
    ∃ ref symbol, entered.lookup member = some ref ∧ ref.scope = index ∧
      later.scopes.symbol ref = .ok symbol ∧
      later.Names member (here.scopes.size + member.scopesBefore members) symbol := by
  obtain ⟨ref, hfound, hplace⟩ := exists_lookup (henters.listed ▸ hmember)
  obtain ⟨hscope, symbol, hsymbol, hnames⟩ := henters.symbols _ (List.mem_of_getElem? hplace)
  exact ⟨ref, symbol, hfound, hscope, hsymbol, hnames⟩

section Entered

variable {second third fourth : Declarations} {scalarRoot streamRoot : Scope}
  {scalars streams : List (Member × SymbolRef)} {madeForScalars madeForStreams : List ScopeIndex}
  (hscalars : Enters ⟨before.scopes.size⟩ scalarRoot second Member.scalars scalars
    madeForScalars third)
  (hstreams : Enters ⟨before.scopes.size + 1⟩ streamRoot third Member.streams streams
    madeForStreams fourth)
  (hsize : second.scopes.size = before.scopes.size + 2)

include hscalars hsize

theorem size_third : third.scopes.size = before.scopes.size + 2 := by
  rw [hscalars.size, hsize]
  rfl

include hstreams

/-- The scopes that were made are those behind the scopes that were there before. -/
theorem mem_made_iff (index : ScopeIndex) :
    index ∈ ⟨before.scopes.size⟩ :: ⟨before.scopes.size + 1⟩ ::
        (madeForScalars ++ madeForStreams) ↔
      before.scopes.size ≤ index.val ∧ index.val < before.scopes.size + 8 := by
  have hnone : madeForScalars = [] := hscalars.made
  have hmade : madeForStreams = (List.range' (before.scopes.size + 2) 6).map ScopeIndex.mk := by
    rw [hstreams.made, size_third hscalars hsize]
    rfl
  obtain ⟨number⟩ := index
  rw [hnone, hmade, List.nil_append]
  simp only [List.mem_cons, List.mem_map, List.mem_range'_1, ScopeIndex.mk.injEq, exists_eq_right]
  omega

/-- The members of scalar values are entered, and then those of streams. -/
theorem filled_of_enters (hgrows : before.Grows (before.scopes.size ≤ ·.val) second)
    (hscalarRoot : scalarRoot.symbolNames = []) (hstreamRoot : streamRoot.symbolNames = []) :
    Filled before ⟨⟨before.scopes.size⟩, ⟨before.scopes.size + 1⟩, scalars ++ streams⟩ fourth where
  holds := {
    names := by
      intro owner
      have hapart : (⟨before.scopes.size⟩ : ScopeIndex) ≠ ⟨before.scopes.size + 1⟩ := by simp
      cases owner with
      | scalar =>
          obtain ⟨scope, hscope, hnames⟩ := hscalars.names
          refine ⟨scope, hstreams.grows.untouched _ scope hapart hscope, ?_⟩
          rw [hnames, hscalarRoot, List.nil_append]
          rfl
      | stream =>
          obtain ⟨scope, hscope, hnames⟩ := hstreams.names
          refine ⟨scope, hscope, ?_⟩
          rw [hnames, hstreamRoot, List.nil_append]
          rfl
    members := by
      intro owner member hmember
      cases owner with
      | scalar =>
          obtain ⟨ref, symbol, hlisted, hplace, hsymbol, hnames⟩ :=
            hscalars.exists_listed hmember
          rw [hsize] at hnames
          refine ⟨ref, symbol, ?_, hplace, hstreams.grows.symbols ref symbol hsymbol, ?_⟩
          · rw [symbol?, List.lookup_append, hlisted]
            rfl
          · refine hstreams.grows.keeps.names ?_ hnames
            simp
            omega
      | stream =>
          obtain ⟨ref, symbol, hlisted, hplace, hsymbol, hnames⟩ :=
            hstreams.exists_listed hmember
          rw [size_third hscalars hsize] at hnames
          refine ⟨ref, symbol, ?_, hplace, hsymbol, hnames⟩
          have hnone : scalars.lookup member = none := by
            rw [List.lookup_eq_none_iff]
            intro listed hlisted
            have hscalar : listed.1 ∈ Member.scalars :=
              hscalars.listed ▸ List.mem_map_of_mem hlisted
            have hapart : member ≠ listed.1 := by
              rintro rfl
              exact not_mem_streams_of_mem_scalars _ hscalar hmember
            simpa using hapart
          rw [symbol?, List.lookup_append, hnone]
          exact hlisted }
  grows := by
    have hfirst := hgrows.trans (hscalars.grows.mono fun index _ hindex => by rw [hindex])
    exact hfirst.trans (hstreams.grows.mono fun index _ hindex => by
      rw [hindex]
      exact Nat.le_succ _)
  size := by
    rw [hstreams.size, size_third hscalars hsize]
    rfl
  scalarScope := rfl
  streamScope := rfl

end Entered

/-- Where the predefined types are there, the types of values that have members are led to
them, and nothing else of any type changes. -/
theorem exists_setOwners (tables : MemberTables) (hthere : 8 ≤ here.types.size) :
    ∃ scalarTypes streamTypes,
      (TypeId.scalars.forM fun id => InstallM.setMemberScope id tables.scalarScope) here =
        .ok () ⟨here.scopes, scalarTypes⟩ ∧
      InstallM.setMemberScope .stream tables.streamScope ⟨here.scopes, scalarTypes⟩ =
        .ok () ⟨here.scopes, streamTypes⟩ ∧
      ∀ id, streamTypes.find id = (here.types.find id).map fun info =>
        match id.owner? with
        | some owner => { info with memberScope := some (tables.scopeOf owner) }
        | none => info := by
  obtain ⟨scalarTypes, hscalarTypes, hscalarFind⟩ :=
    InstallM.exists_setMemberScopes here.scopes TypeId.scalars tables.scalarScope fun id hid =>
      Nat.lt_of_lt_of_le ((by decide : ∀ id ∈ TypeId.scalars, id.index < 8) id hid) hthere
  have hstreamThere : TypeId.stream.index < scalarTypes.size := by
    obtain ⟨info, hinfo⟩ := TypeStore.find_isOk_iff.mpr
      (Nat.lt_of_lt_of_le (by decide : TypeId.stream.index < 8) hthere)
    apply TypeStore.find_isOk_iff.mp
    rw [hscalarFind, hinfo]
    exact ⟨_, rfl⟩
  obtain ⟨streamTypes, hstreamTypes⟩ :=
    TypeStore.exists_setMemberScope hstreamThere tables.streamScope
  refine ⟨scalarTypes, streamTypes, hscalarTypes, ?_, ?_⟩
  · simp only [InstallM.setMemberScope, hstreamTypes]
  · intro id
    rw [TypeStore.find_setMemberScope hstreamTypes, hscalarFind]
    cases here.types.find id with
    | error refusal => rfl
    | ok info => exact congrArg Except.ok (owner?_eq tables id info)

/-- What is left to do goes through. -/
theorem Filled.exists_installed (hfilled : Filled before tables here)
    (htypes : 8 ≤ before.types.size) {made : List ScopeIndex}
    (hmade : ∀ index, index ∈ made ↔
      before.scopes.size ≤ index.val ∧ index.val < before.scopes.size + 8) :
    ∃ scalarTypes streamTypes ranked,
      (TypeId.scalars.forM fun id => InstallM.setMemberScope id tables.scalarScope) here =
        .ok () ⟨here.scopes, scalarTypes⟩ ∧
      InstallM.setMemberScope .stream tables.streamScope ⟨here.scopes, scalarTypes⟩ =
        .ok () ⟨here.scopes, streamTypes⟩ ∧
      (made.forM fun index => InstallM.onScopes (ScopeStore.flatten index))
          ⟨here.scopes, streamTypes⟩ = .ok () ⟨ranked, streamTypes⟩ ∧
      Installed before tables ⟨ranked, streamTypes⟩ := by
  have hthere : 8 ≤ here.types.size := Nat.le_trans htypes hfilled.grows.size_types_le
  obtain ⟨scalarTypes, streamTypes, hscalarTypes, hstreamTypes, hfind⟩ :=
    exists_setOwners tables hthere
  obtain ⟨ranked, hranked, hmaintained, hsize, hflattened⟩ :=
    InstallM.exists_flatten_all streamTypes made hfilled.grows.maintained fun index hmem => by
      rw [hfilled.size]
      exact ((hmade index).mp hmem).2
  have hkeeps : here.Keeps (fun _ => True) ⟨ranked, streamTypes⟩ := {
    types := fun id info hinfo => by
      rw [hfind, hinfo]
      cases id.owner? <;> exact ⟨_, rfl, rfl, rfl, rfl⟩
    scopes := fun index scope _ hscope => by
      obtain ⟨kept, hkept, hsymbols, -⟩ := hflattened index scope hscope
      exact ⟨kept, hkept, hsymbols⟩ }
  refine ⟨scalarTypes, streamTypes, ranked, hscalarTypes, hstreamTypes, hranked, ?_⟩
  exact {
    holds := hfilled.holds.keeps hkeeps
    maintained := hmaintained
    size := hsize.trans hfilled.size
    scalarScope := hfilled.scalarScope
    streamScope := hfilled.streamScope
    scopes := fun index scope hscope => by
      have hless := ScopeStore.index_lt_of_scope hscope
      have hkept := hfilled.grows.untouched index scope (Nat.not_le.mpr hless) hscope
      obtain ⟨same, hsame, -, hunranked, -⟩ := hflattened index scope hkept
      rw [hsame, hunranked fun hmem => Nat.not_le.mpr hless ((hmade index).mp hmem).1]
    flattened := fun index scope hnew hscope => by
      have hless := ScopeStore.index_lt_of_scope hscope
      rw [hsize, hfilled.size] at hless
      have hold : index.val < here.scopes.size := hfilled.size ▸ hless
      obtain ⟨same, hsame, -, -, hdone⟩ := hflattened index _
        (ScopeStore.scope_eq_ok_iff.mpr (Array.getElem?_eq_getElem hold))
      rw [hscope] at hsame
      cases hsame
      exact hdone (.inl ((hmade index).mpr ⟨hnew, hless⟩))
    types := fun id hid => by
      obtain ⟨info, hinfo⟩ := TypeStore.find_isOk_iff.mpr hid
      rw [hfind, hinfo, hfilled.grows.types id info hinfo]
    added := fun id info hnew hinfo => by
      have howner : id.owner? = none := TypeId.owner?_of_le (Nat.le_trans htypes hnew)
      have hplain := hfilled.grows.plain id
      rw [hfind, howner] at hinfo
      cases hknown : here.types.find id with
      | error refusal =>
          rw [hknown] at hinfo
          cases hinfo
      | ok known =>
          rw [hknown] at hinfo
          cases hinfo
          exact hplain _ hnew hknown }

theorem needs_install (context : Context) {before : Declarations}
    (hscopes : before.scopes.Maintained) (htypes : 8 ≤ before.types.size)
    (hfree : areInstalled before.types = .ok false) :
    InstallM.Needs (before.scopes.size ≤ ·.val) 8 (install context) (Installed before) before := by
  have hroom : 0 + (1 + (1 + ((Member.scalars.map Member.scopeCount).sum +
      ((Member.streams.map Member.scopeCount).sum + 0)))) = 8 := by decide
  rw [← hroom]
  unfold install
  apply InstallM.Needs.bind
  have hasked : InstallM.askTypes areInstalled before = .ok false before := by
    simp only [InstallM.askTypes, hfree]
  refine .of_ok false before hasked ⟨rfl, .refl hscopes, ?_⟩
  apply InstallM.Needs.bind
  apply (InstallM.needs_create hscopes).imp
  rintro _ first ⟨rfl, hfirstSize, hfirst, hfirstNew⟩
  refine ⟨hfirstSize, hfirst.of_untouched, ?_⟩
  apply InstallM.Needs.bind
  apply (InstallM.needs_create hfirst.maintained).imp
  rintro _ ⟨second, secondTypes⟩ ⟨rfl, hsecondSize, hsecond, hsecondNew⟩
  refine ⟨hsecondSize, hsecond.of_untouched, ?_⟩
  have hbefore := hfirst.trans hsecond
  have hsecondTypes : 8 ≤ secondTypes.size := Nat.le_trans htypes hbefore.size_types_le
  -- The members of either kind are entered into a scope of their own, which was made just now.
  apply InstallM.Needs.bind
  have hscalars := needs_enterMembers context Member.scalars hsecond.maintained hsecondTypes
    (hsecond.untouched _ _ id hfirstNew) (nodup_names .scalar)
    (Nat.zero_add _ ▸ length_ofOwner_le .scalar)
  have hscalarScope (index : ScopeIndex) (_ : index.val < second.size)
      (hindex : index = ⟨before.scopes.size⟩) : before.scopes.size ≤ index.val := by
    rw [hindex]
  apply (hscalars.mono hscalarScope).imp
  rintro ⟨scalars, madeForScalars⟩ ⟨third, thirdTypes⟩ hscalars
  refine ⟨hscalars.size, hscalars.grows.mono hscalarScope, ?_⟩
  apply InstallM.Needs.bind
  have hstreams := needs_enterMembers context Member.streams hscalars.grows.maintained
    (Nat.le_trans hsecondTypes hscalars.grows.size_types_le)
    (hscalars.grows.untouched _ _ (by simp [hfirstSize]) hsecondNew) (nodup_names .stream)
    (Nat.zero_add _ ▸ length_ofOwner_le .stream)
  have hstreamScope (index : ScopeIndex) (_ : index.val < third.size)
      (hindex : index = ⟨first.scopes.size⟩) : before.scopes.size ≤ index.val := by
    rw [hindex, hfirstSize]
    exact Nat.le_succ _
  apply (hstreams.mono hstreamScope).imp
  rintro ⟨streams, madeForStreams⟩ ⟨fourth, fourthTypes⟩ hstreams
  refine ⟨hstreams.size, hstreams.grows.mono hstreamScope, ?_⟩
  rw [hfirstSize] at hstreams
  have hsecondTwo : second.size = before.scopes.size + 2 := by
    simpa [hfirstSize] using hsecondSize
  have hfilled := filled_of_enters hscalars hstreams hsecondTwo hbefore.of_untouched rfl rfl
  obtain ⟨scalarTypes, streamTypes, ranked, hscalarTypes, hstreamTypes, hranked, hinstalled⟩ :=
    hfilled.exists_installed htypes (mem_made_iff hscalars hstreams hsecondTwo)
  rw [hfirstSize]
  refine .of_ok _ ⟨ranked, streamTypes⟩ ?_ hinstalled
  simp only [bind, EStateM.bind, hscalarTypes, hstreamTypes, hranked]
  rfl

theorem install_of_areInstalled (context : Context) {before : Declarations}
    (hasked : areInstalled before.types = .ok true) :
    install context before = .error .alreadyInstalled before := by
  simp only [install, bind, EStateM.bind, InstallM.askTypes, hasked, if_true]
  rfl

theorem installed_of_install {context : Context} (hscopes : before.scopes.Maintained)
    (htypes : 8 ≤ before.types.size) (hdone : install context before = .ok tables later) :
    Installed before tables later := by
  obtain ⟨installed, hasked, -⟩ := TypeStore.areInstalled_eq htypes
  cases installed with
  | true =>
      rw [install_of_areInstalled context hasked] at hdone
      cases hdone
  | false => exact ((needs_install context hscopes htypes hasked).of_done hdone).2

/-- Work that needs eight scopes goes through if there are no members and numbers enough. -/
theorem exists_install (context : Context) (hscopes : before.scopes.Maintained)
    (htypes : 8 ≤ before.types.size) (hfree : ¬ before.types.HasMembers)
    (hroom : before.scopes.size + 8 ≤ ScopeIndex.capacity) :
    ∃ tables later, install context before = .ok tables later := by
  obtain ⟨installed, hasked, hmembers⟩ := TypeStore.areInstalled_eq htypes
  cases installed with
  | true => exact absurd (hmembers.mp rfl) hfree
  | false =>
      cases hdone : install context before with
      | ok tables later => exact ⟨tables, later, rfl⟩
      | error refusal later =>
          obtain ⟨-, hfull, -⟩ := (needs_install context hscopes htypes hasked).of_refused hdone
          exact absurd (.inr hroom) hfull

/-- Members are neither there for integers nor for streams in the beginning. -/
theorem not_hasMembers_predefined : ¬ TypeStore.predefined.HasMembers := by
  rintro (⟨scope, hscope⟩ | ⟨scope, hscope⟩) <;> cases hscope

/-- Installing is refused if there are members already, and then nothing has changed. It is
refused as well if there are no numbers left for eight scopes, and then there is nothing new
but scopes and types that no member scope leads to. In all other cases the members are
installed. -/
theorem install_allOrNothing (context : Context) (before : Declarations)
    (hscopes : before.scopes.Maintained) (htypes : 8 ≤ before.types.size) :
    (before.types.HasMembers ∧ install context before = .error .alreadyInstalled before) ∨
    (¬ before.types.HasMembers ∧ ScopeIndex.capacity < before.scopes.size + 8 ∧
      ∃ later, install context before =
        .error (.scope (.tooManyScopes ScopeIndex.capacity)) later ∧ before.Extends later) ∨
    (¬ before.types.HasMembers ∧ before.scopes.size + 8 ≤ ScopeIndex.capacity ∧
      ∃ tables later, install context before = .ok tables later ∧
        Installed before tables later) := by
  obtain ⟨installed, hasked, hmembers⟩ := TypeStore.areInstalled_eq htypes
  cases installed with
  | true =>
      exact .inl ⟨hmembers.mp rfl, install_of_areInstalled context hasked⟩
  | false =>
      have hfree : ¬ before.types.HasMembers := fun hthere => by cases hmembers.mpr hthere
      by_cases hroom : before.scopes.size + 8 ≤ ScopeIndex.capacity
      · obtain ⟨tables, later, hdone⟩ := exists_install context hscopes htypes hfree hroom
        exact .inr (.inr ⟨hfree, hroom, tables, later, hdone,
          installed_of_install hscopes htypes hdone⟩)
      · have hneeds := needs_install context hscopes htypes hasked
        cases hdone : install context before with
        | ok tables later =>
            have hfits : before.HasRoom 8 := (hneeds.of_done hdone).1
            unfold Declarations.HasRoom at hfits
            omega
        | error refusal later =>
            obtain ⟨rfl, -, hgrows⟩ := hneeds.of_refused hdone
            refine .inr (.inl ⟨hfree, Nat.lt_of_not_le hroom, later, rfl, ?_⟩)
            exact {
              scopes := fun index scope hscope => hgrows.untouched index scope
                (Nat.not_le.mpr (ScopeStore.index_lt_of_scope hscope)) hscope
              types := hgrows.types
              added := hgrows.plain }

/-- In a new session the members are installed. -/
theorem install_allOrNothing_new :
    ∃ tables later, install {} {} = .ok tables later ∧ Installed {} tables later := by
  rcases install_allOrNothing {} {} ScopeStore.Maintained.empty (by decide) with
    ⟨hmembers, -⟩ | ⟨-, hfull, -⟩ | ⟨-, -, hinstalled⟩
  · exact absurd hmembers not_hasMembers_predefined
  · exact absurd hfull (by decide)
  · exact hinstalled

end MemberTables

end ScopeMachine
