/-
# How members are entered

A member is entered as a function with native code, and each of its parameters as a
symbol in a scope that holds nothing else. What is written down about a member is what
the list of members says about it and what the machine takes for it. All of it stays as
it is when more is entered afterwards.
-/

import Mathlib.Algebra.Ring.Nat
import ScopeMachine.Proofs.Members.Growth
import ScopeMachine.Proofs.Stack.Operations

namespace ScopeMachine

/-! ## Declared types -/

/-- What a parameter or a result is declared as: a predefined type, or an array of no fixed
length. -/
inductive DeclaredForm where
  | predefined (id : TypeId)
  | openArray (element : TypeId)

namespace DeclaredForm

/-- The type that the form goes back to. -/
def origin : DeclaredForm → TypeId
  | .predefined id => id
  | .openArray element => element

/-- Make a type of the form. -/
def make : DeclaredForm → InstallM TypeId
  | .predefined id => return id
  | .openArray element => InstallM.openArray element

/-- The type is of the form. -/
def Names (form : DeclaredForm) (types : TypeStore) (id : TypeId) : Prop :=
  match form with
  | .predefined known => id = known
  | .openArray element => ∃ info, types.find id = .ok info ∧
      info.name = none ∧ info.size = 0 ∧ info.shape = .array ⟨element, 0, 0⟩

end DeclaredForm

/-- What a parameter is declared as. -/
def ParameterKind.form : ParameterKind → DeclaredForm
  | .int => .predefined .int
  | .charArray => .openArray .char
  | .byteArray => .openArray .byte

/-- What a result is declared as. -/
def ResultKind.form : ResultKind → DeclaredForm
  | .int => .predefined .int
  | .float => .predefined .float
  | .bool => .predefined .bool
  | .char => .predefined .char
  | .wideChar => .predefined .wideChar
  | .byte => .predefined .byte
  | .charArray => .openArray .char
  | .wideCharArray => .openArray .wideChar

theorem parameterType_eq (kind : ParameterKind) :
    MemberTables.parameterType kind = kind.form.make := by
  cases kind <;> rfl

theorem resultType_eq (kind : ResultKind) : MemberTables.resultType kind = kind.form.make := by
  cases kind <;> rfl

theorem ParameterKind.origin_form_lt (kind : ParameterKind) : kind.form.origin.index < 8 := by
  cases kind <;> decide

theorem ResultKind.origin_form_lt (kind : ResultKind) : kind.form.origin.index < 8 := by
  cases kind <;> decide

/-! ## Members -/

/-- The symbols are those of parameters as they are entered, one for each in order, and the
sizes of their types are `total` taken together. -/
inductive Declares (types : TypeStore) : List Parameter → List Symbol → (total : Nat) → Prop
  | nil : Declares types [] [] 0
  | cons {parameter : Parameter} {others : List Parameter} {symbol : Symbol}
      {symbols : List Symbol} {id : TypeId} {info : TypeInfo} {total : Nat}
      (hname : symbol.name = parameter.name) (hdefn : symbol.defn = .valueParameter)
      (htype : symbol.type = some id) (hform : parameter.kind.form.Names types id)
      (hfind : types.find id = .ok info) (hothers : Declares types others symbols total) :
      Declares types (parameter :: others) (symbol :: symbols) (info.size + total)

/-- For a member the machine takes `count` arguments besides the value that it is called on,
and leaves a result in their place; with fewer values on the stack it says what is missing.
A member that is declared only takes none and leaves everything as it is. -/
def HandlerTakes (member : Member) (count : Nat) : Prop :=
  ∀ (env : Environment) (receiver declared : TypeId),
    (count = 0 ∧ ∀ machine,
      Machine.callMember env member receiver declared machine = .ok declared machine) ∨
    (Exec.Carries (count + 1) 1 (Machine.callMember env member receiver declared) ∧
      ∀ machine : Machine, machine.stack.length ≤ count →
        Machine.callMember env member receiver declared machine =
          .error (.arityMismatch member.name (count + 1) machine.stack.length)
            { machine with stack := [] })

/-- Code that is refused is refused whatever comes next. -/
theorem Machine.bind_eq_error {α β : Type} {work : Exec α} {machine after : Machine}
    {refusal : EvalError} (hwork : work machine = .error refusal after) (next : α → Exec β) :
    (work >>= next) machine = .error refusal after := by
  simp only [bind, EStateM.bind, hwork]

/-- The machine takes as many arguments for a member as the list of members says. -/
theorem handlerTakes_arity (member : Member) : HandlerTakes member member.arity := by
  intro env receiver declared
  have hcarries := Machine.carries_callMember env member receiver declared
  cases member with
  | toWstr | toInt | toChr | toFlt | toBool | toWchr | toByte => exact .inl ⟨rfl, fun _ => rfl⟩
  | toStr | read =>
      refine .inr ⟨hcarries, fun machine hshort => ?_⟩
      exact Machine.bind_eq_error
        (Machine.popOperands_eq_error _ (Nat.lt_succ_of_le hshort)) _
  | size | length | puts | «open» | reopen | close | flush | wide | write =>
      refine .inr ⟨hcarries, fun machine hshort => ?_⟩
      exact Machine.bind_eq_error (Machine.bind_eq_error
        (Machine.popOperands_eq_error _ (Nat.lt_succ_of_le hshort)) _) _

namespace Member

/-- How many scopes the parameters of a member take. -/
def scopeCount (member : Member) : Nat :=
  if member.parameters.isEmpty then 0 else 1

/-- How many scopes the parameters of the members before `member` take. -/
def scopesBefore (member : Member) (members : List Member) : Nat :=
  ((members.takeWhile (· != member)).map scopeCount).sum

end Member

namespace Declarations

/-- A routine for a member. Its parameters, if it has any, fill the scope `number`. -/
structure Implements (declarations : Declarations) (member : Member) (number : Nat)
    (routine : Routine) : Prop where
  code : routine.code = .native member
  arity : routine.parameterCount = member.arity
  handler : HandlerTakes member routine.parameterCount
  parameters : routine.parameters =
    (List.range routine.parameterCount).map fun entry => ⟨⟨number⟩, ⟨entry⟩⟩
  scope : routine.scope = if member.parameters.isEmpty then none else some ⟨number⟩
  declared : ∃ symbols : List Symbol,
    Declares declarations.types member.parameters symbols routine.totalParameterSize ∧
      (member.parameters.isEmpty = false →
        ∃ scope, declarations.scopes.scope ⟨number⟩ = .ok scope ∧ scope.symbols.toList = symbols)

/-- A symbol is that of a member: a function with its name, its result and a routine for it. -/
structure Names (declarations : Declarations) (member : Member) (number : Nat) (symbol : Symbol) :
    Prop where
  name : symbol.name = member.name
  type : ∃ id, symbol.type = some id ∧ member.result.form.Names declarations.types id
  defn : ∃ routine, symbol.defn = .routine .function routine ∧
    declarations.Implements member number routine

variable {filled : ScopeIndex → Prop} {declarations later : Declarations} {member : Member}
  {number : Nat}

/-! ## What was entered stays -/

namespace Keeps

variable (hkeeps : declarations.Keeps filled later)

include hkeeps

theorem names_form {form : DeclaredForm} {id : TypeId}
    (hnames : form.Names declarations.types id) : form.Names later.types id := by
  cases form with
  | predefined known => exact hnames
  | openArray element =>
      obtain ⟨info, hfind, hname, hsize, hshape⟩ := hnames
      obtain ⟨kept, hkept, hsameName, hsameSize, hsameShape⟩ := hkeeps.types id info hfind
      exact ⟨kept, hkept, hsameName.trans hname, hsameSize.trans hsize, hsameShape.trans hshape⟩

theorem declares {parameters : List Parameter} {symbols : List Symbol} {total : Nat}
    (hdeclares : Declares declarations.types parameters symbols total) :
    Declares later.types parameters symbols total := by
  induction hdeclares with
  | nil => exact .nil
  | cons hname hdefn htype hform hfind hothers ih =>
      obtain ⟨kept, hkept, -, hsize, -⟩ := hkeeps.types _ _ hfind
      rw [← hsize]
      exact .cons hname hdefn htype (hkeeps.names_form hform) hkept ih

/-- A routine stays as it is if the scope with its parameters does. -/
theorem implements (hnumber : filled ⟨number⟩) {routine : Routine}
    (himplements : declarations.Implements member number routine) :
    later.Implements member number routine where
  code := himplements.code
  arity := himplements.arity
  handler := himplements.handler
  parameters := himplements.parameters
  scope := himplements.scope
  declared := by
    obtain ⟨symbols, hdeclares, hfilled⟩ := himplements.declared
    refine ⟨symbols, hkeeps.declares hdeclares, fun hparameters => ?_⟩
    obtain ⟨scope, hscope, hsymbols⟩ := hfilled hparameters
    obtain ⟨kept, hkept, hsame⟩ := hkeeps.scopes _ scope hnumber hscope
    exact ⟨kept, hkept, by rw [hsame, hsymbols]⟩

theorem names (hnumber : filled ⟨number⟩) {symbol : Symbol}
    (hnames : declarations.Names member number symbol) : later.Names member number symbol where
  name := hnames.name
  type := by
    obtain ⟨id, htype, hform⟩ := hnames.type
    exact ⟨id, htype, hkeeps.names_form hform⟩
  defn := by
    obtain ⟨routine, hdefn, himplements⟩ := hnames.defn
    exact ⟨routine, hdefn, hkeeps.implements hnumber himplements⟩

end Keeps

end Declarations

end ScopeMachine
