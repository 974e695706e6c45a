/-
# Entering members

Members are entered one after the other, each behind those before it, and each with a
scope for its parameters if it has any. There is room for all of them in a scope of their
own, and their names differ. So nothing can be refused but a scope for parameters, and
what is entered is what is expected.
-/

import ScopeMachine.Proofs.Members.Entries

namespace ScopeMachine

open Declarations

/-! ## Types and parameters -/

/-- A declared type can be made if the type that it goes back to is there. -/
theorem DeclaredForm.exists_make (form : DeclaredForm) {types : TypeStore}
    (horigin : form.origin.index < types.size) :
    ∃ id later info, (∀ scopes, form.make ⟨scopes, types⟩ = .ok id ⟨scopes, later⟩) ∧
      form.Names later id ∧ later.find id = .ok info ∧
        ∀ touched scopes, scopes.Maintained → Grows touched ⟨scopes, types⟩ ⟨scopes, later⟩ := by
  obtain ⟨info, hinfo⟩ := TypeStore.find_isOk_iff.mpr horigin
  cases form with
  | predefined id =>
      exact ⟨id, types, info, fun _ => rfl, rfl, hinfo, fun _ _ hscopes => .refl hscopes⟩
  | openArray element =>
      have hfind : types.find element = .ok info := hinfo
      have harray : types.array element 0 = .ok (types.allocate
          { name := none, size := 0, shape := .array ⟨element, 0, 0⟩ }) := by
        simp only [TypeStore.array, hfind, bind, Except.bind, Nat.mul_zero, Nat.zero_min]
        rfl
      have hmade := TypeStore.find_allocate_self types
        { name := none, size := 0, shape := .array ⟨element, 0, 0⟩ }
      refine ⟨_, _, _, fun scopes => ?_, ⟨_, hmade, rfl, rfl, rfl⟩, hmade,
        fun _ _ hscopes => .openArray types hscopes element⟩
      simp only [make, InstallM.openArray, harray]

namespace MemberTables

variable {scopes : ScopeStore} {types : TypeStore} {index : ScopeIndex} {scope : Scope}

/-- Parameters are entered behind the names that their scope has, if these are others and
there is room. -/
theorem exists_enterParameters (context : Context) (parameters : List Parameter)
    (hscopes : scopes.Maintained) (htypes : 8 ≤ types.size)
    (hscope : scopes.scope index = .ok scope)
    (hnames : (scope.symbolNames ++ parameters.map Parameter.name).Nodup)
    (hroom : scope.size + parameters.length ≤ Scope.capacity) :
    ∃ total later grown added,
      enterParameters index context parameters ⟨scopes, types⟩ =
        .ok ((List.range' scope.size parameters.length).map (⟨index, ⟨·⟩⟩), total) later ∧
      later.scopes.size = scopes.size ∧ Grows (· = index) ⟨scopes, types⟩ later ∧
      later.scopes.scope index = .ok grown ∧
      grown.symbols.toList = scope.symbols.toList ++ added ∧
      Declares later.types parameters added total := by
  induction parameters generalizing scopes types scope with
  | nil =>
      exact ⟨0, ⟨scopes, types⟩, scope, [], rfl, rfl, .refl hscopes, hscope, by simp, .nil⟩
  | cons parameter others ih =>
      obtain ⟨id, typed, info, hmake, hform, hfind, hgrows⟩ :=
        parameter.kind.form.exists_make (Nat.lt_of_lt_of_le parameter.kind.origin_form_lt htypes)
      have hnew : parameter.name ∉ scope.symbolNames := by
        intro hmem
        have hdisjoint := List.disjoint_of_nodup_append hnames
        exact hdisjoint hmem (by simp)
      have hless : scope.size < Scope.capacity := by
        rw [List.length_cons] at hroom
        omega
      obtain ⟨entered, hentered, -, hdefine⟩ :=
        ScopeStore.exists_enter_define hscopes hscope hnew hless context
      obtain ⟨defined, grown, hdefined, hmaintained, hsize, hothers, hgrown, hsymbols⟩ :=
        hdefine (fun symbol => { symbol with defn := .valueParameter, type := some id })
          fun _ => rfl
      generalize hsymbol : ({ scope.newSymbol parameter.name context with
        defn := .valueParameter, type := some id } : Symbol) = symbol at hsymbols
      have hname : symbol.name = parameter.name := by
        rw [← hsymbol]
        exact Scope.name_newSymbol parameter.name context
      have hgrownSize : grown.size = scope.size + 1 := by
        rw [Scope.size, hsymbols, Array.size_push]
        rfl
      have hgrownNames : grown.symbolNames = scope.symbolNames ++ [parameter.name] := by
        simp [Scope.symbolNames, hsymbols, hname]
      have hbefore := (hgrows (· = index) scopes hscopes).trans
        (.push typed hmaintained hothers hscope hgrown hsymbols)
      obtain ⟨total, later, last, added, hrest, hlaterSize, hlater, hlast, hadded, hdeclares⟩ :=
        ih hmaintained (Nat.le_trans htypes hbefore.size_types_le) hgrown
          (by simpa [hgrownNames] using hnames)
          (by rw [hgrownSize]; rw [List.length_cons] at hroom; omega)
      refine ⟨info.size + total, later, last, symbol :: added, ?_, hlaterSize.trans hsize,
        hbefore.trans hlater, hlast, by simp [hadded, hsymbols], ?_⟩
      · have hsizeOf : typed.sizeOf id = .ok info.size := by
          simp only [TypeStore.sizeOf, hfind]
          rfl
        rw [hgrownSize] at hrest
        simp only [enterParameters, parameterType_eq, bind, EStateM.bind, hmake,
          InstallM.onScopes, InstallM.askTypes, hentered, hdefined, hsizeOf, hrest]
        rfl
      · apply Declares.cons hname (by rw [← hsymbol]) (by rw [← hsymbol]) _ _ hdeclares
        · exact hlater.keeps.names_form hform
        · exact hlater.types _ _ hfind

/-! ## Routines -/

theorem nodup_parameters (member : Member) : (member.parameters.map Parameter.name).Nodup := by
  cases member <;> decide

theorem arity_le (member : Member) : member.arity ≤ Scope.capacity := by
  cases member <;> decide

theorem needs_makeRoutine (touched : ScopeIndex → Prop) (context : Context) (member : Member)
    (hscopes : scopes.Maintained) (htypes : 8 ≤ types.size) :
    InstallM.Needs touched member.scopeCount (makeRoutine member context) (fun made later =>
      later.scopes.size = scopes.size + member.scopeCount ∧
        Grows touched ⟨scopes, types⟩ later ∧ later.Implements member scopes.size made.1 ∧
          made.2 = (List.range' scopes.size member.scopeCount).map ScopeIndex.mk)
      ⟨scopes, types⟩ := by
  unfold makeRoutine Member.scopeCount
  by_cases hnone : member.parameters.isEmpty
  · have hempty : member.parameters = [] := List.isEmpty_iff.mp hnone
    have hcount : member.arity = 0 := by rw [Member.arity, hempty, List.length_nil]
    rw [if_pos hnone, if_pos hnone]
    refine .of_ok _ _ rfl ⟨rfl, .refl hscopes, ?_, rfl⟩
    exact {
      code := rfl
      arity := hcount.symm
      handler := hcount ▸ handlerTakes_arity member
      parameters := rfl
      scope := by rw [if_pos hnone]
      declared := ⟨[], hempty ▸ .nil, fun hsome => by rw [hnone] at hsome; cases hsome⟩ }
  · rw [if_neg hnone, if_neg hnone]
    -- The parameters are entered into a scope that was not there before.
    have hfresh (index : ScopeIndex) (hless : index.val < scopes.size) :
        index = ⟨scopes.size⟩ → touched index := by
      rintro rfl
      exact absurd hless (Nat.lt_irrefl _)
    refine InstallM.Needs.mono (?_ : InstallM.Needs (· = ⟨scopes.size⟩) (1 + 0) _ _ _) hfresh
    apply InstallM.Needs.bind
    apply (InstallM.needs_create hscopes).imp
    rintro _ ⟨created, typed⟩ ⟨rfl, hsize, hcreated, hnew⟩
    have hgrows : Grows (· = ⟨scopes.size⟩) ⟨scopes, types⟩ ⟨created, typed⟩ :=
      hcreated.of_untouched
    obtain ⟨total, later, grown, added, hdone, hlaterSize, hlater, hgrown, hadded, hdeclares⟩ :=
      exists_enterParameters context member.parameters hgrows.maintained
        (Nat.le_trans htypes hgrows.size_types_le) hnew (nodup_parameters member)
        (Nat.zero_add _ ▸ arity_le member)
    let parameters : List SymbolRef :=
      (List.range' 0 member.arity).map fun entry => ⟨⟨scopes.size⟩, ⟨entry⟩⟩
    let routine : Routine :=
      { code := .native member, parameterCount := parameters.length, totalParameterSize := total,
        parameters, scope := some ⟨scopes.size⟩ }
    refine ⟨hsize, hgrows, .of_ok (routine, [⟨scopes.size⟩]) later ?_ ?_⟩
    · simp only [bind, EStateM.bind, hdone]
      rfl
    · refine ⟨hlaterSize.trans hsize, (hgrows.trans hlater).mono hfresh, ?_, rfl⟩
      exact {
        code := rfl
        arity := by simp [routine, parameters]
        handler := by simpa [routine, parameters] using handlerTakes_arity member
        parameters := by simp [routine, parameters, List.range_eq_range']
        scope := by rw [if_neg hnone]
        declared := ⟨added, hdeclares, fun _ => ⟨grown, hgrown, by simpa using hadded⟩⟩ }

/-! ## Members -/

theorem Scope.length_symbolNames (scope : Scope) : scope.symbolNames.length = scope.size := by
  simp [Scope.symbolNames, Scope.size]

/-- Members have been entered into the scope `index` behind those that were in `scope`. Each
has a symbol there, and the scopes that were made are those for the parameters, in order. -/
structure Enters (index : ScopeIndex) (scope : Scope) (before : Declarations)
    (members : List Member) (entered : List (Member × SymbolRef)) (made : List ScopeIndex)
    (later : Declarations) : Prop where
  size : later.scopes.size = before.scopes.size + (members.map Member.scopeCount).sum
  grows : before.Grows (· = index) later
  listed : entered.map Prod.fst = members
  symbols : ∀ listed ∈ entered, listed.2.scope = index ∧
    ∃ symbol, later.scopes.symbol listed.2 = .ok symbol ∧
      later.Names listed.1 (before.scopes.size + listed.1.scopesBefore members) symbol
  made : made = (List.range' before.scopes.size (members.map Member.scopeCount).sum).map
    ScopeIndex.mk
  names : ∃ grown, later.scopes.scope index = .ok grown ∧
    grown.symbolNames = scope.symbolNames ++ members.map Member.name

theorem needs_enterMember (context : Context) (member : Member)
    (hscopes : scopes.Maintained) (htypes : 8 ≤ types.size)
    (hscope : scopes.scope index = .ok scope) (hnew : member.name ∉ scope.symbolNames)
    (hroom : scope.size < Scope.capacity) :
    InstallM.Needs (· = index) member.scopeCount (enterMember index context member)
      (fun entered later => Enters index scope ⟨scopes, types⟩ [member] [(member, entered.1)]
        entered.2 later) ⟨scopes, types⟩ := by
  rw [enterMember_eq]
  unfold declareMember
  refine (InstallM.Needs.bind ?_ : InstallM.Needs _ (member.scopeCount + 0) _ _ _)
  -- The scope for the members is not touched while the parameters are entered.
  have hmade := needs_makeRoutine (fun _ => False) context member hscopes htypes
  apply (hmade.mono fun _ _ hfalse => hfalse.elim).imp
  rintro ⟨routine, made⟩ ⟨here, typed⟩ ⟨hsize, hgrows, himplements, hscopesMade⟩
  have hthere := hgrows.untouched index scope id hscope
  obtain ⟨entered, hentered, -, hdefine⟩ :=
    ScopeStore.exists_enter_define hgrows.maintained hthere hnew hroom context
  obtain ⟨id, later, info, hmake, hform, hfind, htyped⟩ := member.result.form.exists_make
    (Nat.lt_of_lt_of_le member.result.origin_form_lt (Nat.le_trans htypes hgrows.size_types_le))
  obtain ⟨defined, grown, hdefined, hmaintained, hdefinedSize, hothers, hgrown, hsymbols⟩ :=
    hdefine (fun symbol => { symbol with type := some id, defn := .routine .function routine })
      fun _ => rfl
  generalize hsymbol : ({ scope.newSymbol member.name context with
    type := some id, defn := .routine .function routine } : Symbol) = symbol at hsymbols
  have hlater := (htyped (· = index) here hgrows.maintained).trans
    (.push later hmaintained hothers hthere hgrown hsymbols)
  have hbefore : Grows (· = index) ⟨scopes, types⟩ ⟨here, typed⟩ := hgrows.of_untouched
  have hname : symbol.name = member.name := by
    rw [← hsymbol]
    exact Scope.name_newSymbol member.name context
  have hentry : defined.symbol ⟨index, ⟨scope.size⟩⟩ = .ok symbol := by
    refine ScopeStore.symbol_eq_ok_iff.mpr ⟨grown, ScopeStore.scope_eq_ok_iff.mp hgrown, ?_⟩
    rw [Scope.symbol?, hsymbols]
    exact Array.getElem?_push_size
  have hnumber : (⟨scopes.size⟩ : ScopeIndex) ≠ index := by
    rintro rfl
    exact Nat.lt_irrefl _ (ScopeStore.index_lt_of_scope hscope)
  refine ⟨hsize, hbefore, .of_ok (⟨index, ⟨scope.size⟩⟩, made) ⟨defined, later⟩ ?_ ?_⟩
  · simp only [bind, EStateM.bind, InstallM.onScopes, hentered, resultType_eq, hmake, hdefined]
    rfl
  · exact {
      size := by simpa [hdefinedSize] using hsize
      grows := hbefore.trans hlater
      listed := rfl
      symbols := by
        rintro _ (_ | ⟨_, hnil⟩)
        · refine ⟨rfl, symbol, hentry, hname, ⟨id, by rw [← hsymbol], hform⟩, routine,
            by rw [← hsymbol], ?_⟩
          simpa [Member.scopesBefore] using hlater.keeps.implements hnumber himplements
        · cases hnil
      made := by simpa using hscopesMade
      names := ⟨grown, hgrown, by simp [Scope.symbolNames, hsymbols, hname]⟩ }

variable {before here later : Declarations} {grown : Scope} {member : Member}
  {others : List Member} {ref : SymbolRef} {entered : List (Member × SymbolRef)}
  {made more : List ScopeIndex}

/-- Members that are entered behind another one. -/
theorem Enters.cons (hscope : before.scopes.scope index = .ok scope)
    (hfirst : Enters index scope before [member] [(member, ref)] made here)
    (hgrown : here.scopes.scope index = .ok grown) (hnew : member ∉ others)
    (hothers : Enters index grown here others entered more later) :
    Enters index scope before (member :: others) ((member, ref) :: entered) (made ++ more)
      later where
  size := by
    rw [hothers.size, hfirst.size]
    simp [Nat.add_assoc]
  grows := hfirst.grows.trans hothers.grows
  listed := by rw [List.map_cons, hothers.listed]
  symbols := by
    intro listed hmem
    rcases List.mem_cons.mp hmem with rfl | hrest
    · obtain ⟨hplace, symbol, hsymbol, hnames⟩ :=
        hfirst.symbols (member, ref) List.mem_cons_self
      have hnumber : (⟨before.scopes.size⟩ : ScopeIndex) ≠ index := by
        rintro rfl
        exact Nat.lt_irrefl _ (ScopeStore.index_lt_of_scope hscope)
      refine ⟨hplace, symbol, hothers.grows.symbols _ _ hsymbol, ?_⟩
      simp only [Member.scopesBefore] at hnames ⊢
      simpa using hothers.grows.keeps.names (by simpa using hnumber) hnames
    · obtain ⟨hplace, symbol, hsymbol, hnames⟩ := hothers.symbols listed hrest
      have hother : member ≠ listed.1 := by
        rintro rfl
        exact hnew (hothers.listed ▸ List.mem_map_of_mem hrest)
      refine ⟨hplace, symbol, hsymbol, ?_⟩
      rw [hfirst.size] at hnames
      simpa [Member.scopesBefore, hother, Nat.add_assoc] using hnames
  made := by
    rw [hfirst.made, hothers.made, hfirst.size, ← List.map_append, List.range'_append_1]
    simp
  names := by
    obtain ⟨here, hhere, hnames⟩ := hfirst.names
    rw [hgrown] at hhere
    cases hhere
    obtain ⟨last, hlast, hrest⟩ := hothers.names
    exact ⟨last, hlast, by rw [hrest, hnames]; simp⟩

theorem needs_enterMembers (context : Context) (members : List Member)
    (hscopes : scopes.Maintained) (htypes : 8 ≤ types.size)
    (hscope : scopes.scope index = .ok scope)
    (hnames : (scope.symbolNames ++ members.map Member.name).Nodup)
    (hroom : scope.size + members.length ≤ Scope.capacity) :
    InstallM.Needs (· = index) (members.map Member.scopeCount).sum
      (enterMembers index context members)
      (fun entered later => Enters index scope ⟨scopes, types⟩ members entered.1 entered.2 later)
      ⟨scopes, types⟩ := by
  induction members generalizing scopes types scope with
  | nil =>
      refine .of_ok ([], []) ⟨scopes, types⟩ rfl ?_
      exact {
        size := rfl
        grows := .refl hscopes
        listed := rfl
        symbols := nofun
        made := rfl
        names := ⟨scope, hscope, by simp⟩ }
  | cons member others ih =>
      have hnew : member.name ∉ scope.symbolNames := fun hmem =>
        List.disjoint_of_nodup_append hnames hmem (by simp)
      rw [List.length_cons] at hroom
      rw [List.map_cons, List.sum_cons]
      refine (InstallM.Needs.bind ?_ : InstallM.Needs _ (member.scopeCount + _) _ _ _)
      apply (needs_enterMember context member hscopes htypes hscope hnew (by omega)).imp
      rintro ⟨ref, made⟩ ⟨here, typed⟩ hfirst
      obtain ⟨grown, hgrown, hgrownNames⟩ := hfirst.names
      have hgrownSize : grown.size = scope.size + 1 := by
        rw [← Scope.length_symbolNames, hgrownNames]
        simp [Scope.length_symbolNames]
      refine ⟨by simpa using hfirst.size, hfirst.grows, ?_⟩
      have hothers := ih hfirst.grows.maintained
        (Nat.le_trans htypes hfirst.grows.size_types_le) hgrown
        (by simpa [hgrownNames] using hnames) (by omega)
      refine (InstallM.Needs.bind ?_ : InstallM.Needs _ (_ + 0) _ _ _)
      apply hothers.imp
      rintro ⟨entered, more⟩ later hlater
      refine ⟨hlater.size, hlater.grows, .of_ok _ later rfl ?_⟩
      apply Enters.cons hscope hfirst hgrown _ hlater
      intro hmem
      have hrest := (List.nodup_append.mp hnames).2.1
      rw [List.map_cons, List.nodup_cons] at hrest
      exact hrest.1 (List.mem_map_of_mem hmem)

end MemberTables

end ScopeMachine
