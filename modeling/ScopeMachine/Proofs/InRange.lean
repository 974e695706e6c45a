/-
# What is looked up is there

A session keeps numbers of symbols, types and members, and looks up what stands behind
them without asking first whether anything does. Where the symbols and the compiled
routines name types that are there, nothing is missed: the links of a scope lead to its
symbols, every question about a type has an answer, and every member has its symbol.
Running code asks such questions only, and the types that it adds take no answer away.
-/

import ScopeMachine.Proofs.Scopes.Addressing
import ScopeMachine.Proofs.Scopes.Walk
import ScopeMachine.Proofs.Sessions
import ScopeMachine.Proofs.Tracing
import ScopeMachine.Scope.Listing

namespace ScopeMachine

open Machine

/-! ## Links of scopes -/

namespace NameTree

theorem mem_entries_of_root? {tree : NameTree} {entry : EntryId}
    (hroot : tree.root? = some entry) : entry ∈ tree.entries := by
  cases tree with
  | leaf => cases hroot
  | node smaller name here greater =>
      cases hroot
      simp [entries]

/-- What hangs right below a name is in the tree. -/
theorem mem_entries_of_children {tree : NameTree} {wanted : String} {entry : EntryId}
    (hchild : (tree.children wanted).1 = some entry ∨ (tree.children wanted).2 = some entry) :
    entry ∈ tree.entries := by
  induction tree with
  | leaf => simp [children] at hchild
  | node smaller name here greater ihsmaller ihgreater =>
      have hentries : (node smaller name here greater).entries =
          smaller.entries ++ here :: greater.entries := by
        simp [entries]
      rw [hentries, List.mem_append, List.mem_cons]
      rw [children] at hchild
      cases hcompare : compare wanted name with
      | lt =>
          rw [hcompare] at hchild
          exact .inl (ihsmaller hchild)
      | eq =>
          rw [hcompare] at hchild
          rcases hchild with hchild | hchild
          · exact .inl (mem_entries_of_root? hchild)
          · exact .inr (.inr (mem_entries_of_root? hchild))
      | gt =>
          rw [hcompare] at hchild
          exact .inr (.inr (ihgreater hchild))

end NameTree

namespace Scope

/-- Every link of a scope leads to one of its symbols, so that the descent for a name and the
walk through all entries find each symbol that they look at. What was put in order is there,
and a listing shows each symbol that the links lead to. -/
structure InRange (scope : Scope) : Prop where
  root : ∀ entry, scope.names.root? = some entry → entry.val < scope.size
  below : ∀ entry next, (scope.below entry).1 = some next ∨ (scope.below entry).2 = some next →
    next.val < scope.size
  found : ∀ name entry, scope.search name = some entry → entry.val < scope.size
  descends : ∀ name, scope.Descent name scope.names.root? (scope.search name)
  walked : scope.Walk [] scope.names.root? scope.names.entries
  ranked : ∀ order, scope.keyOrder = .ok order → ∀ entry ∈ order, entry.val < scope.size
  listed : scope.names.entries.map scope.symbol? = scope.inKeyOrder.map some

theorem map_symbol?_eq {scope : Scope} {entries : List EntryId}
    (hentries : ∀ entry ∈ entries, entry.val < scope.size) :
    entries.map scope.symbol? = (entries.filterMap scope.symbol?).map some := by
  induction entries with
  | nil => rfl
  | cons entry rest ih =>
      obtain ⟨hless, hrest⟩ := List.forall_mem_cons.mp hentries
      have hsymbol : scope.symbol? entry = some scope.symbols[entry.val] :=
        Array.getElem?_eq_getElem hless
      rw [List.map_cons, List.filterMap_cons_some hsymbol, List.map_cons, hsymbol, ih hrest]

theorem Maintained.inRange {scope : Scope} (hscope : scope.Maintained) : scope.InRange := by
  have hentries (entry : EntryId) (hmem : entry ∈ scope.names.entries) :
      entry.val < scope.size :=
    hscope.wellFormed.mem_entries_iff.mp hmem
  constructor
  · exact fun entry hroot => hentries entry (NameTree.mem_entries_of_root? hroot)
  · intro entry next hnext
    rw [Scope.below] at hnext
    cases hsymbol : scope.symbol? entry with
    | none => simp [hsymbol] at hnext
    | some symbol =>
        rw [hsymbol] at hnext
        exact hentries next (NameTree.mem_entries_of_children hnext)
  · intro name entry hfound
    obtain ⟨symbol, hsymbol, -⟩ := (hscope.wellFormed.searched name entry).mp hfound
    exact (Array.getElem?_eq_some_iff.mp hsymbol).1
  · exact fun name => hscope.wellFormed.descent_iff.mpr rfl
  · exact hscope.wellFormed.walk_iff.mpr rfl
  · intro order horder entry hmem
    rw [keyOrder] at horder
    cases hkept : scope.order with
    | none => simp [hkept] at horder
    | some kept =>
        rw [hkept] at horder
        obtain rfl : kept = order := Except.ok.inj horder
        apply hentries
        rw [← hscope.wellFormed.ranked kept hkept]
        exact Array.mem_toList_iff.mpr hmem
  · exact map_symbol?_eq hentries

end Scope

/-! ## Types that code asks about -/

/-- The code of a compiled routine; other symbols have none. -/
def Symbol.code (symbol : Symbol) : Body :=
  match symbol.defn with
  | .routine _ routine =>
    match routine.code with
    | .interpreted body => body
    | _ => []
  | _ => []

/-- Compiled routines call members only on types that are there. -/
def Environment.ReceiversKnown (env : Environment) (types : TypeStore) : Prop :=
  ∀ ref symbol, env.scopes.symbol ref = .ok symbol →
    Body.CallsOn (·.index < types.size) symbol.code

section Known

variable {env : Environment} {types later : TypeStore}

/-- Whether types are known can be told by going through all symbols. -/
theorem Environment.TypesKnown.of_all (hall : ∀ scope ∈ env.scopes.scopes.toList,
    ∀ symbol ∈ scope.symbols.toList, ∀ id ∈ symbol.type, id.index < types.size) :
    env.TypesKnown types :=
  fun _ _ id hsymbol htype => ScopeStore.symbol_of_all hall hsymbol id htype

theorem Environment.ReceiversKnown.of_all (hall : ∀ scope ∈ env.scopes.scopes.toList,
    ∀ symbol ∈ scope.symbols.toList, ∀ op ∈ symbol.code, ∀ id ∈ receiver? op,
      id.index < types.size) :
    env.ReceiversKnown types :=
  fun _ _ hsymbol => ScopeStore.symbol_of_all hall hsymbol

theorem Environment.TypesKnown.mono (hknown : env.TypesKnown types)
    (hsize : types.size ≤ later.size) : env.TypesKnown later :=
  fun ref symbol id hsymbol htype => Nat.lt_of_lt_of_le (hknown ref symbol id hsymbol htype) hsize

theorem Environment.ReceiversKnown.mono (hknown : env.ReceiversKnown types)
    (hsize : types.size ≤ later.size) : env.ReceiversKnown later :=
  fun ref symbol hsymbol op hop id hreceiver =>
    Nat.lt_of_lt_of_le (hknown ref symbol hsymbol op hop id hreceiver) hsize

theorem Answerable.of_exists {α : Type} {allows : EvalError → Prop}
    {found : Except TypeRefusal α} (hfound : ∃ answer, found = .ok answer) :
    Answerable allows found := by
  obtain ⟨answer, rfl⟩ := hfound
  intro refusal hrefused
  cases hrefused

/-- The error tells of something that was looked up and is not there: a type, the end of a
chain of types, or bytes of an array. -/
def EvalError.IsMiss : EvalError → Prop
  | .types _ => True
  | .outOfRange _ _ => True
  | _ => False

theorem EvalError.IsMiss.isRefusal {error : EvalError} (hmiss : error.IsMiss) :
    error.IsRefusal := by
  cases error with
  | types | outOfRange => trivial
  | _ => exact hmiss.elim

/-- Where the types that symbols and routines name are there, nothing is missed. -/
def knownAllowance (env : Environment) (types : TypeStore) (hsymbols : env.TypesKnown types)
    (hreceivers : env.ReceiversKnown types) : Allowance env where
  types store := store.Holds types.size
  allows error := ¬ error.IsMiss
  receivers id := id.index < types.size
  own _ hown hmiss := hown hmiss.isRefusal
  unresolved _ _ _ := not_false
  leads _ _ _ _ _ := not_false
  grows hholds := hholds.characters
  character := by
    intro store hholds
    have hsize := hholds.reachable.size_le
    have hchar : TypeId.char.index < store.size := Nat.lt_of_lt_of_le (by decide) hsize
    exact .of_exists (TypeStore.find_isOk_iff.mpr hchar)
  receiver := by
    intro store id hholds hid
    have hless : id.index < store.size := Nat.lt_of_lt_of_le hid hholds.least_le
    have hanswers := hholds.reachable.answers env.scopes hless
    exact ⟨.of_exists hanswers.described, .of_exists hanswers.coded⟩
  constant := by
    intro store ref symbol hholds hsymbol
    have hless : (symbol.type.getD .int).index < store.size := by
      cases htype : symbol.type with
      | none => exact Nat.lt_of_lt_of_le (by decide) hholds.reachable.size_le
      | some id => exact hsymbols.mono hholds.least_le ref symbol id hsymbol htype
    exact .of_exists (hholds.reachable.answers env.scopes hless).coded
  announced := by
    intro store ref symbol hholds hsymbol value make
    obtain ⟨subject, text, hmade⟩ := Symbol.exists_piece hholds.reachable
      (hsymbols.mono hholds.least_le) hsymbol value make
    exact .of_exists ⟨_, hmade⟩
  bodies := by
    intro ref callee hcompiled
    obtain ⟨hsymbol, hdefn, hcode⟩ := compiled?_eq_some hcompiled
    have hbody : callee.symbol.code = callee.body := by simp only [Symbol.code, hdefn, hcode]
    exact hbody ▸ hreceivers ref callee.symbol hsymbol

/-- A request that calls members on types that are there misses nothing, and neither do
the routines that it calls. -/
theorem Machine.Request.perform_ne_miss (hsymbols : env.TypesKnown types)
    (hreceivers : env.ReceiversKnown types) {machine : Machine}
    (hholds : machine.types.Holds types.size) {request : Request}
    (hrequest : request.CallsOn (·.index < machine.types.size)) {error : EvalError}
    (hmiss : error.IsMiss) (here : Machine) :
    request.perform env machine ≠ .error error here := by
  -- The types have grown since, and so have the receivers that may be named.
  let allowance := knownAllowance env machine.types (hsymbols.mono hholds.least_le)
    (hreceivers.mono hholds.least_le)
  have hleads (ref : SymbolRef) : env.Leads allowance.allows ref := fun _ _ => not_false
  have hcovered : allowance.Covered (request.perform env machine) :=
    Allowance.covers_request hleads hrequest machine ⟨hholds.reachable, Nat.le_refl _⟩
  intro hmissed
  rw [hmissed] at hcovered
  exact hcovered.1 hmiss

end Known

/-! ## Whole sessions -/

/-- Given some types, whatever a session looks up is there. -/
structure Session.InRange (session : Session) (types : TypeStore) : Prop where
  linked : ∀ index scope, session.declarations.scopes.scope index = .ok scope → scope.InRange
  answered : ∀ id, id.index < types.size → types.Answers session.declarations.scopes id
  announced : ∀ ref symbol, session.declarations.scopes.symbol ref = .ok symbol →
    ∀ value : Value,
      (∃ piece, symbol.fetchPiece value types session.declarations.scopes = .ok piece) ∧
        ∃ piece, symbol.storePiece value types session.declarations.scopes = .ok piece
  listed : ∀ tables, session.members = some tables → ∀ member, ∃ ref symbol,
    tables.symbols[member.index]? = some (member, ref) ∧
      tables.symbol? member = some ref ∧ session.declarations.scopes.symbol ref = .ok symbol
  offered : ∀ tables, session.members = some tables → ∀ receiver, receiver.index < types.size →
    ∀ name, ∃ answer, tables.lookup { session.declarations with types } receiver name = .ok answer

theorem Session.Maintained.inRange {session : Session} (hsession : session.Maintained)
    {types : TypeStore} (htypes : types.Reachable)
    (hsymbols : session.environment.TypesKnown types) : session.InRange types where
  linked index scope hscope :=
    (hsession.declarations.scopes.scope_maintained hscope).inRange
  answered id hid := htypes.answers session.declarations.scopes hid
  announced ref symbol hsymbol value := by
    have hpiece (make : String → Option String → Piece) :=
      Symbol.exists_piece htypes hsymbols hsymbol value make
    obtain ⟨_, _, hfetched⟩ := hpiece .fetched
    obtain ⟨_, _, hstored⟩ := hpiece .stored
    exact ⟨⟨_, hfetched⟩, ⟨_, hstored⟩⟩
  listed tables htables member := (hsession.listed tables htables).exists_symbol member
  offered tables _ receiver hreceiver name := tables.exists_answer_lookup htypes hreceiver name

/-- In a session whose symbols and compiled routines name types that are there, whatever
is looked up is there, also after any requests to a machine. No further request misses
anything then, if the members that it calls itself are called on types that are there by
now: every type is found and every chain of types ends, and of every array as many bytes
are taken as it has, whatever size and count are asked for. -/
theorem indices_stay_in_range {session : Session} (hreachable : session.Reachable)
    (hsymbols : session.environment.TypesKnown session.declarations.types)
    (hreceivers : session.environment.ReceiversKnown session.declarations.types)
    {machine : Machine} (htypes : machine.types = session.declarations.types)
    (requests : List Request) :
    let later := serve session.environment machine requests
    session.InRange later.types ∧ session.declarations.types.size ≤ later.types.size ∧
      ∀ request : Request, request.CallsOn (·.index < later.types.size) →
        ∀ error here, error.IsMiss → request.perform session.environment later ≠
          .error error here := by
  intro later
  have hsession := hreachable.maintained
  have hstart : machine.types.Holds session.declarations.types.size := by
    rw [htypes]
    exact ⟨hsession.declarations.types, Nat.le_refl _⟩
  have hholds : later.types.Holds session.declarations.types.size :=
    holds_serve session.environment hstart requests
  refine ⟨?_, hholds.least_le, ?_⟩
  · exact hsession.inRange hholds.reachable (hsymbols.mono hholds.least_le)
  · intro request hrequest error here hmiss
    exact Request.perform_ne_miss hsymbols hreceivers hholds hrequest hmiss here

/-- A session with the members and a program that turns its global `x` into a text. -/
def turning : Session :=
  let installed := (Session.install {}).2
  { installed with
    declarations.scopes := installed.declarations.scopes.serve [
      .create, .enter ⟨8⟩ "x" {}, .define ⟨⟨8⟩, ⟨0⟩⟩ ⟨0⟩ (some .int) .variable,
      .enter ⟨8⟩ "main" {},
      .define ⟨⟨8⟩, ⟨1⟩⟩ ⟨0⟩ none (.routine .program
        { code := .interpreted [.fetch ⟨⟨8⟩, ⟨1⟩⟩, .callMember ⟨⟨0⟩, ⟨7⟩⟩ .int] }),
      .flattenAll] }

/-- The program is run, and then bytes are read of which there are less than none. Both
make a type. -/
def turnAndRead : List Request :=
  [.define ⟨⟨8⟩, ⟨0⟩⟩ (.int 5), .execute ⟨⟨8⟩, ⟨1⟩⟩, .push (.stream ⟨0⟩), .push (.int (-1)),
    .push (.int 7), .task (.routine ⟨⟨1⟩, ⟨6⟩⟩ (some .stream))]

theorem indices_stay_in_range_turning :
    let machine := turning.machine .buffer
    let later := serve turning.environment machine turnAndRead
    turning.Reachable ∧ turning.environment.TypesKnown turning.declarations.types ∧
      turning.environment.ReceiversKnown turning.declarations.types ∧
      turning.declarations.types.size = 17 ∧ later.types.size = 19 ∧
      turning.InRange later.types ∧ turning.declarations.types.size ≤ later.types.size ∧
      ∀ request : Request, request.CallsOn (·.index < later.types.size) →
        ∀ error here, error.IsMiss → request.perform turning.environment later ≠
          .error error here := by
  intro machine later
  have hreachable : turning.Reachable := by
    rw [turning]
    exact Session.Reachable.start.installed.serve_scopes _
  have hsymbols : turning.environment.TypesKnown turning.declarations.types :=
    .of_all (by decide +kernel)
  have hreceivers : turning.environment.ReceiversKnown turning.declarations.types :=
    .of_all (by decide +kernel)
  have htypes : machine.types = turning.declarations.types := turning.types_machine .buffer
  have hsize : turning.declarations.types.size = 17 := by decide +kernel
  have hgrown : later.types.size = 19 := by decide +kernel
  exact ⟨hreachable, hsymbols, hreceivers, hsize, hgrown,
    indices_stay_in_range hreachable hsymbols hreceivers htypes turnAndRead⟩

end ScopeMachine
