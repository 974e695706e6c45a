/-
# Installing the members lists all of them

Installing enters the members one after the other, in the order in which they are
listed, and each gets a symbol that stays. Scopes and types are only added to, also if
the installation is refused on the way. So every member is found later on, under its
number as under itself, and the members of any type can be asked for.
-/

import ScopeMachine.Member.Tables
import ScopeMachine.Proofs.Scopes.Program
import ScopeMachine.Proofs.Types.References

namespace ScopeMachine

namespace Declarations

/-- Scopes and types as a program can come to have them. -/
structure Maintained (declarations : Declarations) : Prop where
  scopes : declarations.scopes.Maintained
  types : declarations.types.Reachable

/-- Declarations that have come from others. -/
structure Follows (declarations later : Declarations) : Prop where
  scopes : declarations.scopes.Follows later.scopes
  types : later.types.Reachable

variable {declarations later last : Declarations}

theorem Follows.maintained (hfollows : declarations.Follows later) : later.Maintained :=
  ⟨hfollows.scopes.maintained, hfollows.types⟩

theorem Follows.refl (hdeclarations : declarations.Maintained) :
    declarations.Follows declarations :=
  ⟨.refl hdeclarations.scopes, hdeclarations.types⟩

theorem Follows.trans (hfirst : declarations.Follows later) (hsecond : later.Follows last) :
    declarations.Follows last :=
  ⟨hfirst.scopes.trans hsecond.scopes, hsecond.types⟩

end Declarations

namespace InstallM

variable {α β : Type} {declarations : Declarations}

/-- Some work leaves declarations that have come from those before, and if it is not
refused its answer is as expected. -/
def Yields (work : InstallM α) (expected : α → Declarations → Prop)
    (declarations : Declarations) : Prop :=
  match work declarations with
  | .ok answer later => declarations.Follows later ∧ expected answer later
  | .error _ later => declarations.Follows later

/-- Some work only adds to the declarations, whatever it answers. -/
def Adds (work : InstallM α) : Prop :=
  ∀ declarations : Declarations, declarations.Maintained →
    Yields work (fun _ _ => True) declarations

/-! ## Sequences -/

theorem Yields.pure {expected : α → Declarations → Prop} {answer : α}
    (hdeclarations : declarations.Maintained) (hanswer : expected answer declarations) :
    Yields (Pure.pure answer) expected declarations :=
  ⟨.refl hdeclarations, hanswer⟩

/-- What comes next may use the answer, and that what was there before has only grown. -/
theorem Yields.bind {first : InstallM α} {next : α → InstallM β}
    {middle : α → Declarations → Prop} {expected : β → Declarations → Prop}
    (hfirst : Yields first middle declarations)
    (hnext : ∀ answer here, declarations.Follows here → middle answer here →
      Yields (next answer) expected here) :
    Yields (first >>= next) expected declarations := by
  unfold Yields at hfirst
  show match EStateM.bind first next declarations with
    | .ok answer later => declarations.Follows later ∧ expected answer later
    | .error _ later => declarations.Follows later
  unfold EStateM.bind
  cases hdone : first declarations with
  | error refusal here =>
      rw [hdone] at hfirst
      exact hfirst
  | ok answer here =>
      rw [hdone] at hfirst
      have hlater := hnext answer here hfirst.1 hfirst.2
      unfold Yields at hlater
      dsimp only
      cases hend : next answer here with
      | error refusal last =>
          rw [hend] at hlater
          exact hfirst.1.trans hlater
      | ok result last =>
          rw [hend] at hlater
          exact ⟨hfirst.1.trans hlater.1, hlater.2⟩

theorem Adds.pure (answer : α) : Adds (Pure.pure answer : InstallM α) :=
  fun _ hdeclarations => .pure hdeclarations trivial

theorem Adds.bind {first : InstallM α} {next : α → InstallM β} (hfirst : Adds first)
    (hnext : ∀ answer, Adds (next answer)) : Adds (first >>= next) :=
  fun _ hdeclarations => (hfirst _ hdeclarations).bind fun answer here hfollows _ =>
    hnext answer here hfollows.maintained

theorem Adds.forM {work : α → InstallM Unit} (hwork : ∀ item, Adds (work item))
    (items : List α) : Adds (items.forM work) := by
  induction items with
  | nil => exact .pure ()
  | cons item rest ih => exact (hwork item).bind fun _ => ih

/-! ## Elementary work -/

/-- Work on the scopes that only adds to them. -/
theorem yields_onScopes {work : ScopeM α} (hdeclarations : declarations.Maintained)
    (hwork : declarations.scopes.Follows (left (work declarations.scopes))) :
    Yields (onScopes work) (fun answer later => work declarations.scopes = .ok answer later.scopes)
      declarations := by
  unfold Yields onScopes
  cases hdone : work declarations.scopes with
  | ok answer scopes =>
      rw [hdone] at hwork
      exact ⟨⟨hwork, hdeclarations.types⟩, rfl⟩
  | error refusal scopes =>
      rw [hdone] at hwork
      exact ⟨hwork, hdeclarations.types⟩

theorem adds_onScopes {work : ScopeM α}
    (hwork : ∀ {store : ScopeStore}, store.Maintained → store.Follows (left (work store))) :
    Adds (onScopes work) := by
  intro declarations hdeclarations
  have hyields := yields_onScopes hdeclarations (hwork hdeclarations.scopes)
  unfold Yields at hyields ⊢
  split at hyields
  · exact ⟨hyields.1, trivial⟩
  · exact hyields

/-- What is filled in about a symbol changes no name. -/
theorem adds_modifySymbol (ref : SymbolRef) {change : Symbol → Symbol}
    (hname : ∀ symbol, (change symbol).name = symbol.name) :
    Adds (onScopes (ScopeStore.modifySymbol ref change)) :=
  adds_onScopes fun hstore => hstore.follows_modifySymbol ref hname

theorem adds_askTypes (question : TypeStore → Except TypeRefusal α) :
    Adds (askTypes question) := by
  intro declarations hdeclarations
  unfold Yields askTypes
  cases question declarations.types with
  | ok answer => exact ⟨.refl hdeclarations, trivial⟩
  | error refusal => exact .refl hdeclarations

theorem adds_openArray (element : TypeId) : Adds (openArray element) := by
  intro declarations hdeclarations
  unfold Yields openArray
  cases hmade : declarations.types.array element 0 with
  | ok made => exact ⟨⟨.refl hdeclarations.scopes, hdeclarations.types.array hmade⟩, trivial⟩
  | error refusal => exact .refl hdeclarations

theorem adds_setMemberScope (id : TypeId) (scope : ScopeIndex) :
    Adds (setMemberScope id scope) := by
  intro declarations hdeclarations
  unfold Yields setMemberScope
  cases hmade : declarations.types.setMemberScope id scope with
  | ok types => exact ⟨⟨.refl hdeclarations.scopes, hdeclarations.types.memberScope hmade⟩, trivial⟩
  | error refusal => exact .refl hdeclarations

end InstallM

namespace MemberTables

open InstallM

/-- Members have been entered in this order, each with a symbol that is there. -/
structure Entered (members : List Member) (entered : List (Member × SymbolRef))
    (store : ScopeStore) : Prop where
  members : entered.map Prod.fst = members
  symbols : ∀ listed ∈ entered, ∃ symbol, store.symbol listed.2 = .ok symbol

/-- The tables list every member in order, each with a symbol that is there. -/
def Lists (tables : MemberTables) (store : ScopeStore) : Prop :=
  Entered Member.all tables.symbols store

section Entered

variable {members others : List Member} {entered rest : List (Member × SymbolRef)}
  {store later : ScopeStore}

theorem Entered.follows (hentered : Entered members entered store)
    (hfollows : store.Follows later) : Entered members entered later :=
  ⟨hentered.members, fun listed hmem => hfollows.exists_symbol (hentered.symbols listed hmem)⟩

theorem Entered.append (hentered : Entered members entered store)
    (hrest : Entered others rest store) :
    Entered (members ++ others) (entered ++ rest) store where
  members := by rw [List.map_append, hentered.members, hrest.members]
  symbols listed hmem := by
    rcases List.mem_append.mp hmem with hmem | hmem
    · exact hentered.symbols listed hmem
    · exact hrest.symbols listed hmem

theorem Entered.cons {member : Member} {ref : SymbolRef}
    (hsymbol : ∃ symbol, store.symbol ref = .ok symbol) (hrest : Entered others rest store) :
    Entered (member :: others) ((member, ref) :: rest) store := by
  have hfirst : Entered [member] [(member, ref)] store := ⟨rfl, by simpa using hsymbol⟩
  exact hfirst.append hrest

theorem Lists.follows {tables : MemberTables} (hlists : tables.Lists store)
    (hfollows : store.Follows later) : tables.Lists later :=
  Entered.follows hlists hfollows

end Entered

/-! ## Parameters and results -/

theorem adds_parameterType (kind : ParameterKind) : Adds (parameterType kind) := by
  cases kind with
  | int => exact .pure _
  | charArray | byteArray => exact adds_openArray _

theorem adds_resultType (kind : ResultKind) : Adds (resultType kind) := by
  cases kind with
  | charArray | wideCharArray => exact adds_openArray _
  | _ => exact .pure _

theorem adds_enterParameters (scope : ScopeIndex) (context : Context)
    (parameters : List Parameter) : Adds (enterParameters scope context parameters) := by
  induction parameters with
  | nil => exact .pure _
  | cons parameter others ih =>
      apply (adds_parameterType parameter.kind).bind
      intro type
      apply (adds_onScopes fun hstore => hstore.follows_enter scope parameter.name context).bind
      intro entry
      refine Adds.bind (adds_modifySymbol ⟨scope, entry⟩ ?_) ?_
      · exact fun _ => rfl
      intro _
      apply (adds_askTypes _).bind
      intro size
      exact ih.bind fun _ => .pure _

theorem adds_makeRoutine (member : Member) (context : Context) :
    Adds (makeRoutine member context) := by
  unfold makeRoutine
  split
  · exact .pure _
  · apply (adds_onScopes fun hstore => hstore.follows_create).bind
    intro scope
    exact (adds_enterParameters scope context _).bind fun _ => .pure _

/-! ## Members -/

/-- A member that is entered gets a symbol. -/
theorem yields_enterMember {declarations : Declarations}
    (hdeclarations : declarations.Maintained) (scope : ScopeIndex) (context : Context)
    (member : Member) :
    Yields (enterMember scope context member)
      (fun entered later => ∃ symbol, later.scopes.symbol entered.1 = .ok symbol)
      declarations := by
  rw [enterMember_eq]
  apply (adds_makeRoutine member context declarations hdeclarations).bind
  intro made here hhere _
  apply (yields_onScopes hhere.maintained
    (hhere.maintained.scopes.follows_enter scope member.name context)).bind
  intro entry named hnamed hentered
  have hsymbol := hhere.maintained.scopes.exists_symbol_of_enter hentered
  apply (adds_resultType member.result named hnamed.maintained).bind
  intro type typed htyped _
  refine Yields.bind (adds_modifySymbol ⟨scope, entry⟩ ?_ typed htyped.maintained) ?_
  · exact fun _ => rfl
  intro _ defined hdefined _
  have hstays := htyped.scopes.trans hdefined.scopes
  exact .pure hdefined.maintained (hstays.exists_symbol hsymbol)

/-- Members that are entered are listed in order, and each gets a symbol. -/
theorem yields_enterMembers {declarations : Declarations}
    (hdeclarations : declarations.Maintained) (scope : ScopeIndex) (context : Context)
    (members : List Member) :
    Yields (enterMembers scope context members)
      (fun entered later => Entered members entered.1 later.scopes) declarations := by
  induction members generalizing declarations with
  | nil => exact .pure hdeclarations ⟨rfl, by simp⟩
  | cons member others ih =>
      apply (yields_enterMember hdeclarations scope context member).bind
      intro entered here hhere hsymbol
      apply (ih hhere.maintained).bind
      intro rest later hlater hrest
      exact .pure hlater.maintained (.cons (hlater.scopes.exists_symbol hsymbol) hrest)

/-- Installing lists every member in order, each with a symbol that is there. -/
theorem yields_install {declarations : Declarations} (hdeclarations : declarations.Maintained)
    (context : Context) :
    Yields (install context) (fun tables later => tables.Lists later.scopes) declarations := by
  apply (adds_askTypes areInstalled declarations hdeclarations).bind
  intro installed asked hasked _
  cases installed with
  | true =>
      show asked.Follows asked
      exact .refl hasked.maintained
  | false =>
      have hcreate : Adds (onScopes ScopeStore.create) :=
        adds_onScopes fun hstore => hstore.follows_create
      apply (hcreate asked hasked.maintained).bind
      intro scalarScope first hfirst _
      apply (hcreate first hfirst.maintained).bind
      intro streamScope second hsecond _
      apply (yields_enterMembers hsecond.maintained scalarScope context Member.scalars).bind
      intro scalars third hthird hscalars
      apply (yields_enterMembers hthird.maintained streamScope context Member.streams).bind
      intro streams fourth hfourth hstreams
      have hlists : Lists ⟨scalarScope, streamScope, scalars.1 ++ streams.1⟩ fourth.scopes :=
        (hscalars.follows hfourth.scopes).append hstreams
      -- What is left to do enters no name, and the symbols stay.
      apply (Adds.forM (fun id => adds_setMemberScope id scalarScope) TypeId.scalars fourth
        hfourth.maintained).bind
      intro _ fifth hfifth _
      apply (adds_setMemberScope .stream streamScope fifth hfifth.maintained).bind
      intro _ sixth hsixth _
      have hflatten (scope : ScopeIndex) : Adds (onScopes (ScopeStore.flatten scope)) :=
        adds_onScopes fun hstore => hstore.follows_flatten scope
      apply (Adds.forM hflatten _ sixth hsixth.maintained).bind
      intro _ last hlast _
      have hstays := hfifth.trans (hsixth.trans hlast)
      exact .pure hlast.maintained (hlists.follows hstays.scopes)

/-! ## Looking members up -/

/-- What is listed under a member is found under it, at the place of the first listing. -/
theorem exists_lookup {entered : List (Member × SymbolRef)} {member : Member}
    (hmem : member ∈ entered.map Prod.fst) :
    ∃ ref, entered.lookup member = some ref ∧
      entered[(entered.map Prod.fst).idxOf member]? = some (member, ref) := by
  induction entered with
  | nil => cases hmem
  | cons first others ih =>
      obtain ⟨listed, ref⟩ := first
      by_cases hlisted : listed = member
      · subst hlisted
        exact ⟨ref, by simp, by simp⟩
      · have hother : member ∈ others.map Prod.fst := by
          simpa [Ne.symm hlisted] using hmem
        obtain ⟨found, hfound, hplace⟩ := ih hother
        refine ⟨found, ?_, ?_⟩
        · have hne : (member == listed) = false := by simpa using Ne.symm hlisted
          rw [List.lookup_cons, hne]
          exact hfound
        · rw [List.map_cons, List.idxOf_cons_ne _ hlisted]
          exact hplace

/-- Every member has a symbol that is there, under its number as under itself. -/
theorem Lists.exists_symbol {tables : MemberTables} {store : ScopeStore}
    (hlists : tables.Lists store) (member : Member) :
    ∃ ref symbol, tables.symbols[member.index]? = some (member, ref) ∧
      tables.symbol? member = some ref ∧ store.symbol ref = .ok symbol := by
  have hmem : member ∈ tables.symbols.map Prod.fst := hlists.members ▸ member.mem_all
  obtain ⟨ref, hfound, hplace⟩ := exists_lookup hmem
  rw [hlists.members] at hplace
  obtain ⟨symbol, hsymbol⟩ := hlists.symbols _ (List.mem_of_getElem? hplace)
  exact ⟨ref, symbol, hplace, hfound, hsymbol⟩

/-- The members of a type that is there can be looked up. -/
theorem exists_answer_lookup (tables : MemberTables) {declarations : Declarations}
    (htypes : declarations.types.Reachable) {receiver : TypeId}
    (hreceiver : receiver.index < declarations.types.size) (name : String) :
    ∃ answer, tables.lookup declarations receiver name = .ok answer := by
  have hanswers := htypes.answers declarations.scopes hreceiver
  obtain ⟨base, hbase, hless⟩ := hanswers.based
  obtain ⟨inherited, hinherited⟩ := (htypes.answers declarations.scopes hless).membered
  obtain ⟨own, hown⟩ := hanswers.membered
  obtain ⟨shape, hshape⟩ := hanswers.shaped
  have hscope : ∃ found, tables.scopeFor declarations.types receiver = .ok found := by
    unfold scopeFor
    simp only [hown, hbase, hinherited, hshape, bind, Except.bind]
    cases own with
    | some scope => exact ⟨_, rfl⟩
    | none =>
        cases inherited with
        | some scope => exact ⟨_, rfl⟩
        | none => cases shape <;> exact ⟨_, rfl⟩
  obtain ⟨found, hfound⟩ := hscope
  unfold lookup
  simp only [hfound, bind, Except.bind]
  cases found with
  | none => exact ⟨_, rfl⟩
  | some index =>
      cases hsearched : declarations.scopes.scope index with
      | error refusal => exact ⟨none, by simp only [hsearched]; rfl⟩
      | ok scope => exact ⟨_, by simp only [hsearched]; rfl⟩

end MemberTables

end ScopeMachine
