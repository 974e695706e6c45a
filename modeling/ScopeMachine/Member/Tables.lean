/-
# Installing the members of built-in values

The members of scalar values and of streams live in two scopes, entered as
functions with parameters in scopes of their own, so that they look like the
routines of a program. Installing them makes these scopes the member scopes of
the scalar types and of the stream type. It is done once; a second attempt is
refused before it changes anything.
-/

import ScopeMachine.Scope.Store
import ScopeMachine.Types.Store

namespace ScopeMachine

/-- The symbols and types of a program. -/
structure Declarations where
  /-- The scopes. -/
  scopes : ScopeStore := {}
  /-- The types. -/
  types : TypeStore := .predefined
deriving DecidableEq

/-- Why the members cannot be installed. -/
inductive InstallError where
  /-- They have been installed before. -/
  | alreadyInstalled
  /-- A member has more or fewer parameters than the machine takes arguments. -/
  | arityMismatch (member : Member) (declared handler : Nat)
  /-- A symbol table refused. -/
  | scope (refusal : ScopeError)
  /-- A question about a predefined type has no answer. -/
  | types (refusal : TypeRefusal)
deriving DecidableEq

namespace InstallError

/-- The message for a refusal. -/
def message : InstallError → String
  | .alreadyInstalled => "built-in members are already installed"
  | .arityMismatch member declared handler =>
    "member `" ++ member.name ++ "` declares " ++ toString declared ++
      " parameter(s) but its handler pops " ++ toString handler
  | .scope refusal => refusal.message
  | .types refusal => refusal.message

end InstallError

/-- Work on the declarations that may be refused. -/
abbrev InstallM := EStateM InstallError Declarations

namespace InstallM

/-- Work on the symbol tables alone. -/
def onScopes {α : Type} (work : ScopeM α) : InstallM α := fun declarations =>
  match work declarations.scopes with
  | .ok answer scopes => .ok answer { declarations with scopes }
  | .error refusal scopes => .error (.scope refusal) { declarations with scopes }

/-- Ask the types. -/
def askTypes {α : Type} (question : TypeStore → Except TypeRefusal α) : InstallM α :=
  fun declarations =>
    match question declarations.types with
    | .ok answer => .ok answer declarations
    | .error refusal => .error (.types refusal) declarations

/-- Add an array type of no fixed length. -/
def openArray (element : TypeId) : InstallM TypeId := fun declarations =>
  match declarations.types.array element 0 with
  | .ok (id, types) => .ok id { declarations with types }
  | .error refusal => .error (.types refusal) declarations

/-- Look members of values of a type up in `scope` from now on. -/
def setMemberScope (id : TypeId) (scope : ScopeIndex) : InstallM Unit := fun declarations =>
  match declarations.types.setMemberScope id scope with
  | .ok types => .ok () { declarations with types }
  | .error refusal => .error (.types refusal) declarations

end InstallM

/-- The installed members. -/
structure MemberTables where
  /-- The scope with the members of scalar values. -/
  scalarScope : ScopeIndex
  /-- The scope with the members of streams. -/
  streamScope : ScopeIndex
  /-- The symbol of every member, in the order of installation. -/
  symbols : List (Member × SymbolRef)
deriving DecidableEq

namespace MemberTables

/-- The type of a parameter. Arrays are open, so each gets a type of its own. -/
def parameterType : ParameterKind → InstallM TypeId
  | .int => return .int
  | .charArray => InstallM.openArray .char
  | .byteArray => InstallM.openArray .byte

/-- The type of a result. Arrays are open, so each gets a type of its own. -/
def resultType : ResultKind → InstallM TypeId
  | .int => return .int
  | .float => return .float
  | .bool => return .bool
  | .char => return .char
  | .wideChar => return .wideChar
  | .byte => return .byte
  | .charArray => InstallM.openArray .char
  | .wideCharArray => InstallM.openArray .wideChar

/-- Enter the parameters of a member into their scope, and answer them with the
sizes of their types taken together. -/
def enterParameters (scope : ScopeIndex) (context : Context) :
    List Parameter → InstallM (List SymbolRef × Nat)
  | [] => return ([], 0)
  | parameter :: others => do
    let type ← parameterType parameter.kind
    let entry ← InstallM.onScopes (ScopeStore.enter scope parameter.name context)
    let ref : SymbolRef := ⟨scope, entry⟩
    InstallM.onScopes (ScopeStore.modifySymbol ref fun symbol =>
      { symbol with defn := .valueParameter, type := some type })
    let size ← InstallM.askTypes (·.sizeOf type)
    let (refs, sizes) ← enterParameters scope context others
    return (ref :: refs, size + sizes)

/-- The routine of a member, and the scope that was made for its parameters if it
has any. -/
def makeRoutine (member : Member) (context : Context) :
    InstallM (Routine × List ScopeIndex) := do
  if member.parameters.isEmpty then return ({ code := .native member }, [])
  else
    let scope ← InstallM.onScopes ScopeStore.create
    let (parameters, totalParameterSize) ← enterParameters scope context member.parameters
    let routine : Routine :=
      { code := .native member, parameterCount := parameters.length, totalParameterSize,
        parameters, scope := some scope }
    return (routine, [scope])

/-- Enter a member into its scope as a function, and answer its symbol with the
scope that was made for its parameters if it has any. -/
def declareMember (scope : ScopeIndex) (context : Context) (member : Member) :
    InstallM (SymbolRef × List ScopeIndex) := do
  let (routine, made) ← makeRoutine member context
  let entry ← InstallM.onScopes (ScopeStore.enter scope member.name context)
  let ref : SymbolRef := ⟨scope, entry⟩
  let type ← resultType member.result
  InstallM.onScopes (ScopeStore.modifySymbol ref fun symbol =>
    { symbol with type := some type, defn := .routine .function routine })
  return (ref, made)

/-- Enter a member if the machine takes as many arguments for it as it has
parameters. -/
def enterMember (scope : ScopeIndex) (context : Context) (member : Member) :
    InstallM (SymbolRef × List ScopeIndex) := do
  if member.arity ≠ member.handlerArity then
    throw (.arityMismatch member member.arity member.handlerArity)
  declareMember scope context member

/-- No member is refused for what the machine takes for it. -/
theorem enterMember_eq (scope : ScopeIndex) (context : Context) (member : Member) :
    enterMember scope context member = declareMember scope context member := by
  simp [enterMember]

/-- Enter members into their scope one after the other. -/
def enterMembers (scope : ScopeIndex) (context : Context) :
    List Member → InstallM (List (Member × SymbolRef) × List ScopeIndex)
  | [] => return ([], [])
  | member :: others => do
    let (ref, made) ← enterMember scope context member
    let (refs, more) ← enterMembers scope context others
    return ((member, ref) :: refs, made ++ more)

/-- Whether the members have been installed. -/
def areInstalled (types : TypeStore) : Except TypeRefusal Bool := do
  let forInt ← types.memberScope .int
  let forStream ← types.memberScope .stream
  return forInt.isSome || forStream.isSome

/-- Install the members of built-in values. Every scope that this makes is
flattened in the end. -/
def install (context : Context) : InstallM MemberTables := do
  if ← InstallM.askTypes areInstalled then throw .alreadyInstalled
  let scalarScope ← InstallM.onScopes ScopeStore.create
  let streamScope ← InstallM.onScopes ScopeStore.create
  let (scalars, madeForScalars) ← enterMembers scalarScope context Member.scalars
  let (streams, madeForStreams) ← enterMembers streamScope context Member.streams
  TypeId.scalars.forM fun id => InstallM.setMemberScope id scalarScope
  InstallM.setMemberScope .stream streamScope
  (scalarScope :: streamScope :: (madeForScalars ++ madeForStreams)).forM fun scope =>
    InstallM.onScopes (ScopeStore.flatten scope)
  return { scalarScope, streamScope, symbols := scalars ++ streams }

/-- The symbol of a member. -/
def symbol? (tables : MemberTables) (member : Member) : Option SymbolRef :=
  tables.symbols.lookup member

/-- The scope in which the members of values of a type are found: that of the
type, that of its base, or for arrays that of the scalar values. -/
def scopeFor (tables : MemberTables) (types : TypeStore) (receiver : TypeId) :
    Except TypeRefusal (Option ScopeIndex) := do
  match ← types.memberScope receiver with
  | some scope => return some scope
  | none =>
    let base ← types.base receiver
    match ← types.memberScope base with
    | some scope => return some scope
    | none =>
      match ← types.shape receiver with
      | .array _ => return some tables.scalarScope
      | _ => return none

/-- The member of a name that values of a type have. -/
def lookup (tables : MemberTables) (declarations : Declarations) (receiver : TypeId)
    (name : String) : Except TypeRefusal (Option SymbolRef) := do
  match ← tables.scopeFor declarations.types receiver with
  | none => return none
  | some index =>
    match declarations.scopes.scope index with
    | .error _ => return none
    | .ok scope => return (scope.search name).map scope.ref

end MemberTables

end ScopeMachine
