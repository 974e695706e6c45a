/-
# Heights of operations

Only pushing, popping and the members of values touch the stack. Everything else
keeps it as it is, so the height that an operation carries is the number of its
operands to the number of its results.
-/

import ScopeMachine.Proofs.Stack.Carries

namespace ScopeMachine.Machine

open Exec

/-! ## Operations that keep the stack -/

theorem keepsStack_ofScopes {α : Type} (found : Except ScopeError α) :
    KeepsStack (ofScopes found) := by
  intro machine
  cases found with
  | ok a => rfl
  | error e => exact ⟨id, rfl⟩

theorem keepsStack_askTypes {α : Type} (question : TypeStore → Except TypeRefusal α) :
    KeepsStack (askTypes question) := by
  intro machine
  unfold askTypes
  cases question machine.types with
  | ok a => rfl
  | error e => exact ⟨id, rfl⟩

theorem keepsStack_charArrayType (count : Nat) : KeepsStack (charArrayType count) := by
  intro machine
  unfold charArrayType
  cases machine.types.array .char count with
  | ok made => rfl
  | error e => exact ⟨id, rfl⟩

theorem keepsStack_onChannels {α : Type} (work : Channels → α × Channels) :
    KeepsStack (onChannels work) :=
  fun _ => rfl

theorem keepsStack_announce (env : Environment) (hook : Hook)
    (piece : TypeStore → Except TypeRefusal Piece) : KeepsStack (announce env hook piece) := by
  intro machine
  unfold announce
  by_cases hhas : env.settings.trace.has hook
  · rw [if_pos hhas]
    cases piece machine.types with
    | ok made => rfl
    | error e => exact ⟨id, rfl⟩
  · rw [if_neg hhas]

theorem keepsStack_streamOperand (value : Value) : KeepsStack (streamOperand value) := by
  intro machine
  cases value with
  | stream id =>
      unfold streamOperand
      by_cases hid : machine.channels.contains id
      · simp [hid]
      · simp [hid, EvalError.IsShortage]
  | _ => exact ⟨id, rfl⟩

theorem keepsStack_bufferOperand (value : Value) : KeepsStack (bufferOperand value) := by
  intro machine
  cases value with
  | buffer bytes => rfl
  | _ => exact ⟨id, rfl⟩

theorem keepsStack_intOperand (value : Value) : KeepsStack (intOperand value) := by
  intro machine
  unfold intOperand
  cases value.ordinal? with
  | some n => rfl
  | none => exact ⟨id, rfl⟩

theorem keepsStack_textOperand (value : Value) : KeepsStack (textOperand value) := by
  rw [textOperand_eq]
  exact (keepsStack_bufferOperand value).bind fun _ => .pure _

theorem keepsStack_shownPlace (env : Environment) : KeepsStack (shownPlace env) :=
  fun _ => rfl

theorem keepsStack_valueOf (symbol : Symbol) (ref : SymbolRef) :
    KeepsStack (valueOf symbol ref) := by
  have hvariable : KeepsStack (fetchVariable symbol ref) := by
    intro machine
    unfold fetchVariable
    cases machine.slot? (machine.addressOf symbol.defn ref) with
    | some value => rfl
    | none => exact ⟨id, rfl⟩
  have hconstant : KeepsStack (fetchConstant symbol) := by
    apply (keepsStack_askTypes _).bind
    intro code machine
    cases symbol.constantValue code with
    | some value => rfl
    | none => exact ⟨id, rfl⟩
  unfold valueOf
  cases symbol.defn with
  | constant => exact hconstant
  | _ => exact hvariable

theorem keepsStack_fetch (env : Environment) (ref : SymbolRef) : KeepsStack (fetch env ref) := by
  apply (keepsStack_ofScopes _).bind
  intro symbol
  apply (keepsStack_valueOf symbol ref).bind
  intro value
  exact (keepsStack_announce _ _ _).bind fun _ => .pure value

theorem keepsStack_store (env : Environment) (ref : SymbolRef) (value : Value) :
    KeepsStack (store env ref value) := by
  apply (keepsStack_ofScopes _).bind
  intro symbol
  apply (keepsStack_announce _ _ _).bind
  intro _ machine
  show (machine.setSlot (machine.addressOf symbol.defn ref) value).stack = machine.stack
  unfold setSlot
  cases (machine.addressOf symbol.defn ref).place <;> rfl

theorem keepsStack_fetchAddress (env : Environment) (ref : SymbolRef) :
    KeepsStack (fetchAddress env ref) :=
  (keepsStack_ofScopes _).bind fun _ _ => rfl

/-! ## Operations on the stack -/

theorem carries_push (height : Nat) (value : Value) :
    Carries height (height + 1) (push value) := by
  intro machine own base hstack hlength
  apply Outcome.Leaves.ok (value :: own)
  · rw [List.length_cons, hlength]
  · show value :: machine.stack = value :: own ++ base
    rw [hstack, List.cons_append]

theorem carries_pop (height : Nat) : Carries (height + 1) height pop := by
  intro machine own base hstack hlength
  cases own with
  | nil => cases hlength
  | cons value rest =>
      rw [pop, hstack]
      exact .ok rest (Nat.succ.inj hlength) rfl

theorem carries_popOperands (taker : String) (count : Nat) :
    Carries count 0 (popOperands taker count) := by
  intro machine own base hstack hlength
  have htaken : (machine.stack.take count).length = count := by
    rw [hstack, List.length_take, List.length_append]
    omega
  rw [popOperands, dif_pos htaken]
  apply Outcome.Leaves.ok [] rfl
  show machine.stack.drop count = base
  rw [hstack, ← hlength, List.drop_left]

/-- What was pushed last comes off first, and is answered last. -/
theorem popOperands_eq_ok {machine : Machine} {arguments below : List Value} {count : Nat}
    (taker : String) (hstack : machine.stack = arguments.reverse ++ below)
    (hcount : arguments.length = count) :
    ∃ operands : Vector Value count, operands.toList = arguments ∧
      popOperands taker count machine = .ok operands { machine with stack := below } := by
  have hlength : arguments.reverse.length = count := List.length_reverse.trans hcount
  have htake : machine.stack.take count = arguments.reverse := by
    rw [hstack, ← hlength, List.take_left]
  have hdrop : machine.stack.drop count = below := by
    rw [hstack, ← hlength, List.drop_left]
  refine ⟨⟨arguments.toArray, hcount⟩, rfl, ?_⟩
  simp only [popOperands, htake, hdrop, hlength, dite_true, List.reverse_reverse]

theorem popOperands_eq_error {machine : Machine} {count : Nat} (taker : String)
    (hshort : machine.stack.length < count) :
    popOperands taker count machine =
      .error (.arityMismatch taker count machine.stack.length) { machine with stack := [] } := by
  have htaken : machine.stack.take count = machine.stack :=
    List.take_of_length_le (Nat.le_of_lt hshort)
  simp only [popOperands, htaken, Nat.ne_of_lt hshort, dite_false]

theorem carries_arithmetic (operation : Arithmetic) : Carries 2 1 (arithmetic operation) := by
  apply (carries_pop 1).bind
  intro second
  apply (carries_pop 0).bind
  intro first
  cases happly : operation.apply first second with
  | ok result => exact carries_push 0 result
  | error e =>
      obtain ⟨found, rfl⟩ := Arithmetic.apply_eq_error happly
      exact .throw 0 1 id

/-! ## Members -/

theorem carries_sizeMember (receiver : TypeId) : Carries 1 1 (sizeMember receiver) := by
  apply (carries_popOperands _ 1).bind
  intro _
  apply (keepsStack_askTypes _).andThen
  intro size
  exact carries_push 0 _

theorem carries_lengthMember (receiver : TypeId) : Carries 1 1 (lengthMember receiver) := by
  apply (carries_popOperands _ 1).bind
  intro _
  apply (keepsStack_askTypes _).andThen
  intro shape
  exact carries_push 0 _

theorem carries_toStrMember (env : Environment) (receiver : TypeId) :
    Carries 1 1 (toStrMember env receiver) := by
  apply (carries_popOperands _ 1).bind
  intro operands
  apply (keepsStack_askTypes _).andThen
  intro code
  apply (keepsStack_shownPlace env).andThen
  intro place
  apply (keepsStack_charArrayType _).andThen
  intro type
  exact (carries_push 0 _).bind fun _ => .pure 1 _

theorem carries_putsMember : Carries 2 1 putsMember := by
  apply (carries_popOperands _ 2).bind
  intro operands
  apply (keepsStack_streamOperand _).andThen
  intro stream
  apply (keepsStack_textOperand _).andThen
  intro text
  apply (keepsStack_onChannels _).andThen
  intro written
  exact carries_push 0 _

theorem carries_openMember (member : Member)
    (work : Channels → StreamId → String → String → Bool × Channels) :
    Carries 3 1 (openMember member work) := by
  apply (carries_popOperands _ 3).bind
  intro operands
  apply (keepsStack_streamOperand _).andThen
  intro stream
  apply (keepsStack_textOperand _).andThen
  intro path
  apply (keepsStack_textOperand _).andThen
  intro mode
  apply (keepsStack_onChannels _).andThen
  intro opened
  exact carries_push 0 _

theorem carries_closeMember : Carries 1 1 closeMember := by
  apply (carries_popOperands _ 1).bind
  intro operands
  apply (keepsStack_streamOperand _).andThen
  intro stream
  apply (keepsStack_onChannels _).andThen
  intro closed
  exact carries_push 0 _

theorem carries_flushMember : Carries 1 1 flushMember := by
  apply (carries_popOperands _ 1).bind
  intro operands
  apply (keepsStack_streamOperand _).andThen
  intro stream
  apply (keepsStack_onChannels _).andThen
  intro flushed
  exact carries_push 0 _

theorem carries_wideMember : Carries 2 1 wideMember := by
  apply (carries_popOperands _ 2).bind
  intro operands
  apply (keepsStack_streamOperand _).andThen
  intro stream
  apply (keepsStack_intOperand _).andThen
  intro mode
  apply (keepsStack_onChannels _).andThen
  intro orientation
  exact carries_push 0 _

theorem carries_readMember : Carries 3 1 readMember := by
  apply (carries_popOperands _ 3).bind
  intro operands
  apply (keepsStack_streamOperand _).andThen
  intro stream
  apply (keepsStack_intOperand _).andThen
  intro size
  apply (keepsStack_intOperand _).andThen
  intro count
  apply (keepsStack_onChannels _).andThen
  intro bytes
  apply (keepsStack_charArrayType _).andThen
  intro type
  exact (carries_push 0 _).bind fun _ => .pure 1 _

theorem carries_writeMember : Carries 4 1 writeMember := by
  apply (carries_popOperands _ 4).bind
  intro operands
  apply (keepsStack_streamOperand _).andThen
  intro stream
  apply (keepsStack_bufferOperand _).andThen
  intro bytes
  apply (keepsStack_intOperand _).andThen
  intro size
  apply (keepsStack_intOperand _).andThen
  intro count
  rw [leading_min, pure_bind]
  apply (keepsStack_onChannels _).andThen
  intro written
  exact carries_push 0 _

/-- A member takes the value that it is called on and its arguments and leaves one
result. -/
theorem carries_callMember (env : Environment) (member : Member) (receiver declared : TypeId) :
    Carries (member.arity + 1) 1 (callMember env member receiver declared) := by
  have hdeclared {start : Nat} {work : Exec Unit} (hwork : Carries start 1 work) :
      Carries start 1 (do work; return declared) :=
    hwork.bind fun _ => .pure 1 declared
  cases member with
  | size => exact hdeclared (carries_sizeMember receiver)
  | length => exact hdeclared (carries_lengthMember receiver)
  | toStr => exact carries_toStrMember env receiver
  | puts => exact hdeclared carries_putsMember
  | «open» => exact hdeclared (carries_openMember .open _)
  | reopen => exact hdeclared (carries_openMember .reopen _)
  | close => exact hdeclared carries_closeMember
  | flush => exact hdeclared carries_flushMember
  | wide => exact hdeclared carries_wideMember
  | read => exact carries_readMember
  | write => exact hdeclared carries_writeMember
  | _ => exact .pure 1 declared

end ScopeMachine.Machine
