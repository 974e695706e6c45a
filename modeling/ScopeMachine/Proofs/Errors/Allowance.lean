/-
# Errors that code may meet

Which errors running code can meet depends on the symbol tables that it reads and on the
types, to which it adds. An allowance says what is to be known of these and which errors
are then allowed. Code is covered if, started with such types, it meets no other error
and leaves such types behind, also when it fails. What is covered can be put in sequence,
so an allowance covers every operation of a machine once it allows the refusals that the
tables and types can answer. An array refuses nothing: no member asks it for more than
it has.
-/

import ScopeMachine.Proofs.Stepping

namespace ScopeMachine

open Machine

/-- The error is a refusal of the symbol tables, of the types or of an array. -/
def EvalError.IsRefusal : EvalError → Prop
  | .scope _ => True
  | .types _ => True
  | .outOfRange _ _ => True
  | _ => False

/-- If the types refuse an answer, the refusal is an error that is allowed. -/
def Answerable {α : Type} (allows : EvalError → Prop) (found : Except TypeRefusal α) : Prop :=
  ∀ refusal, found = .error refusal → allows (.types refusal)

/-- What is made of an answer is refused only if the answer is. -/
theorem Answerable.map {α β : Type} {allows : EvalError → Prop} {found : Except TypeRefusal α}
    (hfound : Answerable allows found) (make : α → β) :
    Answerable allows (do let answer ← found; return make answer) := by
  cases found with
  | ok answer =>
      intro refusal hrefused
      cases hrefused
  | error refusal =>
      rintro _ ⟨⟩
      exact hfound refusal rfl

/-- If the symbol tables refuse a symbol, the refusal is an error that is allowed. -/
def Environment.Leads (env : Environment) (allows : EvalError → Prop) (ref : SymbolRef) : Prop :=
  ∀ refusal, env.scopes.symbol ref = .error refusal → allows (.scope refusal)

/-- Every member that a body calls is called on an expected type. -/
def Body.CallsOn (receivers : TypeId → Prop) (body : Body) : Prop :=
  ∀ op ∈ body, ∀ id, receiver? op = some id → receivers id

/-- The errors that running code may meet, given types that stay as they should be. -/
structure Allowance (env : Environment) where
  types : TypeStore → Prop
  allows : EvalError → Prop
  receivers : TypeId → Prop
  -- What is no refusal is allowed.
  own : ∀ error : EvalError, ¬ error.IsRefusal → allows error
  -- Refusals of the symbol tables.
  unresolved : ∀ addr refusal, env.scopes.resolve addr = .error refusal → allows (.scope refusal)
  leads : ∀ addr ref, env.scopes.resolve addr = .ok ref → env.Leads allows ref
  -- Refusals of the types, which grow.
  grows : ∀ {store}, types store → ∀ size count,
    types (store.allocate (.characters size count)).2
  character : ∀ {store}, types store → Answerable allows (store.find .char)
  receiver : ∀ {store id}, types store → receivers id →
    Answerable allows (store.find id) ∧ Answerable allows (store.code id)
  constant : ∀ {store ref symbol}, types store → env.scopes.symbol ref = .ok symbol →
    Answerable allows (store.code (symbol.type.getD .int))
  announced : ∀ {store ref symbol}, types store → env.scopes.symbol ref = .ok symbol →
    ∀ (value : Value) (make : String → Option String → Piece), Answerable allows (do
      let subject ← symbol.subject store
      let text ← value.render symbol.shownType store env.scopes
      return make subject text)
  -- The members that compiled routines call.
  bodies : ∀ {ref callee}, compiled? env ref = some callee →
    Body.CallsOn receivers callee.body

namespace Allowance

variable {env : Environment} (allowance : Allowance env) {α β : Type}

/-- The outcome leaves types as they should be, with no error but an allowed one. -/
def Covered : Outcome α → Prop
  | .ok _ here => allowance.types here.types
  | .error error here => allowance.allows error ∧ allowance.types here.types

/-- Code that meets no error but allowed ones and keeps the types as they should be. -/
def Covers (work : Exec α) : Prop :=
  ∀ machine, allowance.types machine.types → allowance.Covered (work machine)

variable {allowance}

/-! ## Sequences -/

theorem Covers.pure (answer : α) : allowance.Covers (Pure.pure answer : Exec α) :=
  fun _ htypes => htypes

theorem Covers.throw {error : EvalError} (herror : allowance.allows error) :
    allowance.Covers (MonadExcept.throw error : Exec α) :=
  fun _ htypes => ⟨herror, htypes⟩

theorem Covers.bind {first : Exec α} {next : α → Exec β} (hfirst : allowance.Covers first)
    (hnext : ∀ answer, allowance.Covers (next answer)) : allowance.Covers (first >>= next) := by
  intro machine htypes
  have hcovered := hfirst machine htypes
  show allowance.Covered (EStateM.bind first next machine)
  unfold EStateM.bind
  cases hdone : first machine with
  | ok answer here =>
      rw [hdone] at hcovered
      exact hnext answer here hcovered
  | error error here =>
      rw [hdone] at hcovered
      exact hcovered

/-- Code that changes nothing of the types and always goes through. -/
theorem covers_of_ok {work : Exec α}
    (hwork : ∀ machine, ∃ answer here, work machine = .ok answer here ∧
      here.types = machine.types) : allowance.Covers work := by
  intro machine htypes
  obtain ⟨answer, here, hdone, hkept⟩ := hwork machine
  rw [hdone]
  show allowance.types here.types
  rwa [hkept]

/-! ## Elementary operations -/

theorem covers_push (value : Value) : allowance.Covers (push value) :=
  fun _ htypes => htypes

theorem covers_modify {change : Machine → Machine}
    (hchange : ∀ machine, (change machine).types = machine.types) :
    allowance.Covers (modify change : Exec Unit) :=
  covers_of_ok fun machine => ⟨(), change machine, rfl, hchange machine⟩

theorem covers_onChannels (work : Channels → α × Channels) :
    allowance.Covers (onChannels work) :=
  fun _ htypes => htypes

theorem covers_pop : allowance.Covers pop := by
  intro machine htypes
  unfold pop
  split
  · exact ⟨allowance.own _ id, htypes⟩
  · exact htypes

theorem covers_top : allowance.Covers top := by
  intro machine htypes
  unfold top
  split
  · exact ⟨allowance.own _ id, htypes⟩
  · exact htypes

theorem covers_popOperands (taker : String) (count : Nat) :
    allowance.Covers (popOperands taker count) := by
  intro machine htypes
  simp only [popOperands]
  split
  · exact htypes
  · exact ⟨allowance.own _ id, htypes⟩

theorem covers_streamOperand (value : Value) : allowance.Covers (streamOperand value) := by
  intro machine htypes
  unfold streamOperand
  split
  · split
    · exact htypes
    · exact ⟨allowance.own _ id, htypes⟩
  · exact ⟨allowance.own _ id, htypes⟩

theorem covers_bufferOperand (value : Value) : allowance.Covers (bufferOperand value) := by
  intro machine htypes
  unfold bufferOperand
  split
  · exact htypes
  · exact ⟨allowance.own _ id, htypes⟩

theorem covers_intOperand (value : Value) : allowance.Covers (intOperand value) := by
  intro machine htypes
  unfold intOperand
  split
  · exact htypes
  · exact ⟨allowance.own _ id, htypes⟩

theorem covers_textOperand (value : Value) : allowance.Covers (textOperand value) := by
  rw [textOperand_eq]
  exact (covers_bufferOperand value).bind fun _ => .pure _

theorem covers_arithmetic (operation : Arithmetic) :
    allowance.Covers (arithmetic operation) := by
  apply covers_pop.bind
  intro second
  apply covers_pop.bind
  intro first
  cases happly : operation.apply first second with
  | ok result => exact covers_push result
  | error error =>
      obtain ⟨found, rfl⟩ := Arithmetic.apply_eq_error happly
      exact .throw (allowance.own _ id)

/-! ## Operations that ask the types -/

theorem covers_askTypes {question : TypeStore → Except TypeRefusal α}
    (hquestion : ∀ {store}, allowance.types store → Answerable allowance.allows (question store)) :
    allowance.Covers (askTypes question) := by
  intro machine htypes
  unfold askTypes
  cases hanswer : question machine.types with
  | ok answer => exact htypes
  | error refusal => exact ⟨hquestion htypes refusal hanswer, htypes⟩

theorem covers_charArrayType (count : Nat) : allowance.Covers (charArrayType count) := by
  intro machine htypes
  unfold charArrayType TypeStore.array
  cases hfind : machine.types.find .char with
  | ok info => exact allowance.grows htypes info.size count
  | error refusal => exact ⟨allowance.character htypes refusal hfind, htypes⟩

theorem covers_announce {hook : Hook} {piece : TypeStore → Except TypeRefusal Piece}
    (hpiece : ∀ {store}, allowance.types store → Answerable allowance.allows (piece store)) :
    allowance.Covers (announce env hook piece) := by
  intro machine htypes
  unfold announce
  split
  · cases hmade : piece machine.types with
    | ok made => exact htypes
    | error refusal => exact ⟨hpiece htypes refusal hmade, htypes⟩
  · exact htypes

/-- Pieces that need no types can be announced. -/
theorem covers_announce_ok (hook : Hook) (piece : Piece) :
    allowance.Covers (announce env hook fun _ => .ok piece) :=
  covers_announce fun _ _ hrefused => by cases hrefused

/-! ## Variables -/

section Variables

variable {ref : SymbolRef} {symbol : Symbol}

theorem covers_ofScopes {found : Except ScopeError α} {next : α → Exec β}
    (hrefused : ∀ refusal, found = .error refusal → allowance.allows (.scope refusal))
    (hnext : ∀ answer, found = .ok answer → allowance.Covers (next answer)) :
    allowance.Covers (ofScopes found >>= next) := by
  cases found with
  | error refusal => exact .throw (hrefused refusal rfl)
  | ok answer => exact hnext answer rfl

theorem covers_valueOf (hsymbol : env.scopes.symbol ref = .ok symbol) :
    allowance.Covers (valueOf symbol ref) := by
  have hvariable : allowance.Covers (fetchVariable symbol ref) := by
    intro machine htypes
    unfold fetchVariable
    split
    · exact htypes
    · exact ⟨allowance.own _ id, htypes⟩
  have hconstant : allowance.Covers (fetchConstant symbol) := by
    apply (covers_askTypes fun htypes => allowance.constant htypes hsymbol).bind
    intro code
    cases symbol.constantValue code with
    | some value => exact .pure value
    | none => exact .throw (allowance.own _ id)
  unfold valueOf
  split
  · exact hconstant
  · exact hvariable

theorem covers_fetch (hleads : env.Leads allowance.allows ref) :
    allowance.Covers (fetch env ref) := by
  apply covers_ofScopes hleads
  intro symbol hsymbol
  apply (covers_valueOf hsymbol).bind
  intro value
  apply (covers_announce fun htypes => allowance.announced htypes hsymbol value .fetched).bind
  intro _
  exact .pure value

theorem covers_store (hleads : env.Leads allowance.allows ref) (value : Value) :
    allowance.Covers (store env ref value) := by
  apply covers_ofScopes hleads
  intro symbol hsymbol
  apply (covers_announce fun htypes => allowance.announced htypes hsymbol value .stored).bind
  intro _
  apply covers_modify
  intro machine
  unfold setSlot
  split <;> rfl

theorem covers_fetchAddress (hleads : env.Leads allowance.allows ref) :
    allowance.Covers (fetchAddress env ref) := by
  apply covers_ofScopes hleads
  intro symbol _ machine htypes
  exact htypes

end Variables

/-! ## Members -/

section Members

variable {receiver : TypeId} (hreceiver : allowance.receivers receiver)

include hreceiver

theorem covers_sizeMember : allowance.Covers (sizeMember receiver) := by
  apply (covers_popOperands _ 1).bind
  intro _
  have hsize {store : TypeStore} (htypes : allowance.types store) :
      Answerable allowance.allows (store.sizeOf receiver) :=
    (allowance.receiver htypes hreceiver).1.map TypeInfo.size
  apply (covers_askTypes hsize).bind
  intro size
  exact covers_push _

theorem covers_lengthMember : allowance.Covers (lengthMember receiver) := by
  apply (covers_popOperands _ 1).bind
  intro _
  have hshape {store : TypeStore} (htypes : allowance.types store) :
      Answerable allowance.allows (store.shape receiver) :=
    (allowance.receiver htypes hreceiver).1.map TypeInfo.shape
  apply (covers_askTypes hshape).bind
  intro shape
  exact covers_push _

theorem covers_toStrMember : allowance.Covers (toStrMember env receiver) := by
  apply (covers_popOperands _ 1).bind
  intro operands
  apply (covers_askTypes fun htypes => (allowance.receiver htypes hreceiver).2).bind
  intro code
  apply (covers_of_ok fun machine => ⟨_, machine, rfl, rfl⟩).bind
  intro place
  apply (covers_charArrayType _).bind
  intro type
  exact (covers_push _).bind fun _ => .pure type

omit hreceiver

theorem covers_putsMember : allowance.Covers putsMember := by
  apply (covers_popOperands _ 2).bind
  intro operands
  apply (covers_streamOperand _).bind
  intro stream
  apply (covers_textOperand _).bind
  intro text
  apply (covers_onChannels _).bind
  intro written
  exact covers_push _

theorem covers_openMember (member : Member)
    (work : Channels → StreamId → String → String → Bool × Channels) :
    allowance.Covers (openMember member work) := by
  apply (covers_popOperands _ 3).bind
  intro operands
  apply (covers_streamOperand _).bind
  intro stream
  apply (covers_textOperand _).bind
  intro path
  apply (covers_textOperand _).bind
  intro mode
  apply (covers_onChannels _).bind
  intro opened
  exact covers_push _

theorem covers_closeMember : allowance.Covers closeMember := by
  apply (covers_popOperands _ 1).bind
  intro operands
  apply (covers_streamOperand _).bind
  intro stream
  apply (covers_onChannels _).bind
  intro closed
  exact covers_push _

theorem covers_flushMember : allowance.Covers flushMember := by
  apply (covers_popOperands _ 1).bind
  intro operands
  apply (covers_streamOperand _).bind
  intro stream
  apply (covers_onChannels _).bind
  intro flushed
  exact covers_push _

theorem covers_wideMember : allowance.Covers wideMember := by
  apply (covers_popOperands _ 2).bind
  intro operands
  apply (covers_streamOperand _).bind
  intro stream
  apply (covers_intOperand _).bind
  intro mode
  apply (covers_onChannels _).bind
  intro orientation
  exact covers_push _

theorem covers_readMember : allowance.Covers readMember := by
  apply (covers_popOperands _ 3).bind
  intro operands
  apply (covers_streamOperand _).bind
  intro stream
  apply (covers_intOperand _).bind
  intro size
  apply (covers_intOperand _).bind
  intro count
  apply (covers_onChannels _).bind
  intro bytes
  apply (covers_charArrayType _).bind
  intro type
  exact (covers_push _).bind fun _ => .pure type

theorem covers_writeMember : allowance.Covers writeMember := by
  apply (covers_popOperands _ 4).bind
  intro operands
  apply (covers_streamOperand _).bind
  intro stream
  apply (covers_bufferOperand _).bind
  intro bytes
  apply (covers_intOperand _).bind
  intro size
  apply (covers_intOperand _).bind
  intro count
  rw [leading_min, pure_bind]
  apply (covers_onChannels _).bind
  intro written
  exact covers_push _

/-- A member is covered if the type that it is called on is an expected one. -/
theorem covers_callMember (member : Member) (hreceiver : allowance.receivers receiver)
    (declared : TypeId) : allowance.Covers (callMember env member receiver declared) := by
  have hdeclared {work : Exec Unit} (hwork : allowance.Covers work) :
      allowance.Covers (do work; return declared) :=
    hwork.bind fun _ => .pure declared
  cases member with
  | size => exact hdeclared (covers_sizeMember hreceiver)
  | length => exact hdeclared (covers_lengthMember hreceiver)
  | toStr => exact covers_toStrMember hreceiver
  | puts => exact hdeclared covers_putsMember
  | «open» => exact hdeclared (covers_openMember .open _)
  | reopen => exact hdeclared (covers_openMember .reopen _)
  | close => exact hdeclared covers_closeMember
  | flush => exact hdeclared covers_flushMember
  | wide => exact hdeclared covers_wideMember
  | read => exact covers_readMember
  | write => exact hdeclared covers_writeMember
  | _ => exact .pure declared

end Members

end Allowance

end ScopeMachine
