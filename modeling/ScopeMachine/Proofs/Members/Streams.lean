/-
# Members that work on streams

A member takes its operands from the stack, does its work on the streams and pushes its
result. Here every member that puts bytes into a stream or takes them out of one is said by
what it does when its operands are there, and called with operands that are pushed for it.
-/

import ScopeMachine.Proofs.Reach
import ScopeMachine.Proofs.Streams.Transfers
import ScopeMachine.Proofs.Types.Grounded

namespace ScopeMachine.Machine

variable {env : Environment} {machine : Machine} {ref : SymbolRef} {member : Member}
  {receiver : TypeId} {id : StreamId} {rest : List Value}

/-- A member that is called is carried out, wherever it is called. -/
theorem exists_callSymbol_eq (hnames : NamesMember env ref member) :
    ∃ declared, ∀ nested receiver,
      callSymbol env nested ref (some receiver) = callMember env member receiver declared := by
  obtain ⟨symbol, kind, routine, hsymbol, hdefn, hcode⟩ := hnames
  refine ⟨symbol.type.getD .void, fun nested receiver => ?_⟩
  simp only [callSymbol, hsymbol, ofScopes_ok_bind, hdefn, hcode]

theorem exists_call_eq (hnames : NamesMember env ref member) :
    ∃ declared, ∀ receiver machine,
      call env ref (some receiver) machine = callMember env member receiver declared machine := by
  obtain ⟨declared, hcall⟩ := exists_callSymbol_eq hnames
  exact ⟨declared, fun receiver machine => by rw [call, hcall]⟩

/-! ## Members on the stack -/

/-- Put a line into a stream. -/
theorem putsMember_eq {bytes : List UInt8}
    (hstack : machine.stack = .buffer bytes :: .stream id :: rest)
    (hslot : machine.channels.contains id) :
    putsMember machine =
      let line := Text.encode (Text.ofBytes (Text.beforeNul bytes)) ++ [0x0a]
      .ok () { machine with
        stack := .bool ((machine.channels.write id line).1 = line.length) :: rest
        channels := (machine.channels.write id line).2 } := by
  simp [putsMember, popOperands, hstack, streamOperand, hslot, textOperand, bufferOperand,
    onChannels, push, bind, EStateM.bind, pure, EStateM.pure]

/-- Open a file in a stream. -/
theorem openMember_eq (member : Member)
    (work : Channels → StreamId → String → String → Bool × Channels) {path mode : List UInt8}
    (hstack : machine.stack = .buffer mode :: .buffer path :: .stream id :: rest)
    (hslot : machine.channels.contains id) :
    openMember member work machine =
      let opened := work machine.channels id (Text.ofBytes (Text.beforeNul path))
        (Text.ofBytes (Text.beforeNul mode))
      .ok () { machine with stack := .bool opened.1 :: rest, channels := opened.2 } := by
  simp [openMember, popOperands, hstack, streamOperand, hslot, textOperand, bufferOperand,
    onChannels, push, bind, EStateM.bind, pure, EStateM.pure]

/-- What has no slot cannot be opened. -/
theorem openMember_of_not_contains (member : Member)
    (work : Channels → StreamId → String → String → Bool × Channels) {path mode : List UInt8}
    (hstack : machine.stack = .buffer mode :: .buffer path :: .stream id :: rest)
    (hslot : machine.channels.contains id = false) :
    openMember member work machine = .error (.notAStream id) { machine with stack := rest } := by
  simp [openMember, popOperands, hstack, streamOperand, hslot, bind, EStateM.bind]

/-- Put bytes into a stream. -/
theorem writeMember_eq {bytes : List UInt8} {size count : Int32}
    (hstack : machine.stack = .int count :: .int size :: .buffer bytes :: .stream id :: rest)
    (hslot : machine.channels.contains id) :
    writeMember machine =
      let written := machine.channels.write id (bytes.take (byteCount size count))
      .ok () { machine with
        stack := countValue (if 0 < size.toInt then written.1 / size.toInt.toNat else 0) :: rest
        channels := written.2 } := by
  simp [writeMember, popOperands, hstack, streamOperand, hslot, bufferOperand, intOperand,
    Value.ordinal?, onChannels, push, bind, EStateM.bind, pure, EStateM.pure]

/-- Take bytes out of a stream. -/
theorem readMember_eq {size count : Int32} {type : TypeId} {types : TypeStore}
    (hstack : machine.stack = .int count :: .int size :: .stream id :: rest)
    (hslot : machine.channels.contains id)
    (htype : machine.types.array .char
      (machine.channels.read id (byteCount size count)).1.length = .ok (type, types)) :
    readMember machine =
      .ok type { machine with
        stack := .buffer (machine.channels.read id (byteCount size count)).1 :: rest
        channels := (machine.channels.read id (byteCount size count)).2
        types } := by
  simp [readMember, popOperands, hstack, streamOperand, hslot, intOperand, Value.ordinal?,
    onChannels, charArrayType, htype, push, bind, EStateM.bind, pure, EStateM.pure]

/-- A member that answers its declared type goes through if its work does. -/
theorem ok_of_work {work : Exec Unit} {after : Machine} (hwork : work machine = .ok () after)
    (declared : TypeId) :
    (do work; return declared : Exec TypeId) machine = .ok declared after := by
  simp only [bind, EStateM.bind, hwork]
  rfl

theorem error_of_work {work : Exec Unit} {error : EvalError} {after : Machine}
    (hwork : work machine = .error error after) (declared : TypeId) :
    (do work; return declared : Exec TypeId) machine = .error error after := by
  simp only [bind, EStateM.bind, hwork]

/-! ## Members with operands -/

/-- The machine with operands pushed. -/
def pushing (machine : Machine) (operands : List Value) : Machine :=
  { machine with stack := operands.reverse ++ machine.stack }

/-- Call a member on operands that are pushed for it, and take the result. -/
def callOn (env : Environment) (ref : SymbolRef) (receiver : TypeId) (operands : List Value) :
    Exec (TypeId × Value) := do
  operands.forM push
  let type ← call env ref (some receiver)
  let result ← pop
  return (type, result)

theorem forM_push (operands : List Value) (machine : Machine) :
    operands.forM push machine = .ok () (machine.pushing operands) := by
  induction operands generalizing machine with
  | nil => rfl
  | cons operand others ih =>
      change others.forM push { machine with stack := operand :: machine.stack } = _
      rw [ih]
      simp [pushing]

theorem callOn_eq {operands : List Value} {type : TypeId} {result : Value} {after : Machine}
    (hcall : call env ref (some receiver) (machine.pushing operands) = .ok type after)
    (hstack : after.stack = result :: rest) :
    callOn env ref receiver operands machine =
      .ok (type, result) { after with stack := rest } := by
  simp only [callOn, bind, EStateM.bind, forM_push, hcall, pop, hstack]
  rfl

/-- A member that refuses its operands has no result. -/
theorem callOn_of_error {operands : List Value} {error : EvalError} {after : Machine}
    (hcall : call env ref (some receiver) (machine.pushing operands) = .error error after) :
    callOn env ref receiver operands machine = .error error after := by
  simp only [callOn, bind, EStateM.bind, forM_push, hcall]

/-- The symbol is a member that binds a slot to a file, be it that the slot is closed first. -/
def Opens (env : Environment) (ref : SymbolRef) : Prop :=
  NamesMember env ref .open ∨ NamesMember env ref .reopen

/-- Either member opens the file in streams with the same disk. -/
theorem exists_opening (hopens : Opens env ref) :
    ∃ member work, ∃ declared : TypeId,
      (∀ receiver machine, call env ref (some receiver) machine =
        (do openMember member work; return declared : Exec TypeId) machine) ∧
      ∀ channels id path mode, ∃ before : Channels, before.disk = channels.disk ∧
        work channels id path mode = before.openFile id path mode := by
  rcases hopens with hopen | hreopen
  · obtain ⟨declared, hcall⟩ := exists_call_eq hopen
    exact ⟨.open, Channels.openFile, declared, hcall, fun channels _ _ _ => ⟨channels, rfl, rfl⟩⟩
  · obtain ⟨declared, hcall⟩ := exists_call_eq hreopen
    exact ⟨.reopen, Channels.reopenFile, declared, hcall,
      fun channels id _ _ => ⟨(channels.close id).2, channels.disk_close id, rfl⟩⟩

/-- A call that answers that a file was opened has opened it, on the disk as it was. -/
theorem openFile_of_callOn (hopens : Opens env ref) {path mode : List UInt8} {type : TypeId}
    {after : Machine}
    (hopened : callOn env ref receiver [.stream id, .buffer path, .buffer mode] machine =
      .ok (type, .bool true) after) :
    ∃ before : Channels, before.disk = machine.channels.disk ∧
      ∃ channels, before.openFile id (Text.ofBytes (Text.beforeNul path))
        (Text.ofBytes (Text.beforeNul mode)) = (true, channels) ∧
      after = { machine with channels } := by
  obtain ⟨member, work, declared, hcall, hwork⟩ := exists_opening hopens
  have hstack : (machine.pushing [.stream id, .buffer path, .buffer mode]).stack =
      .buffer mode :: .buffer path :: .stream id :: machine.stack := rfl
  cases hslot : machine.channels.contains id with
  | false =>
      have hrefused := error_of_work
        (openMember_of_not_contains member work hstack hslot) declared
      rw [← hcall receiver] at hrefused
      rw [callOn_of_error hrefused] at hopened
      cases hopened
  | true =>
      have hanswered := ok_of_work
        (openMember_eq member work hstack hslot) declared
      rw [← hcall receiver] at hanswered
      rw [callOn_eq hanswered rfl] at hopened
      obtain ⟨before, hdisk, hbefore⟩ := hwork machine.channels id
        (Text.ofBytes (Text.beforeNul path)) (Text.ofBytes (Text.beforeNul mode))
      injection hopened with hanswer hafter
      injection hanswer with _ hvalue
      injection hvalue with hdone
      exact ⟨before, hdisk, _, hbefore ▸ Prod.ext hdone rfl, hafter.symm⟩

/-- Bytes are put into a file whose place is at its end. -/
theorem callOn_write (receiver : TypeId) {path : Path} {mode : OpenMode} {data bytes : List UInt8}
    (hnames : NamesMember env ref .write) (hwrites : mode.writes)
    (hholds : machine.channels.Holds id path mode data.length data)
    (hbytes : bytes.length ≤ greatestInt) :
    ∃ type channels,
      callOn env ref receiver
          [.stream id, .buffer bytes, .int 1, .int (Int32.ofNat bytes.length)] machine =
        .ok (type, .int (Int32.ofNat bytes.length)) { machine with channels } ∧
      channels.Holds id path mode (data ++ bytes).length (data ++ bytes) ∧
      channels.disk.locate = machine.channels.disk.locate := by
  obtain ⟨declared, hcall⟩ := exists_call_eq hnames
  obtain ⟨channels, hwrite, hafter, hlocate⟩ := hholds.write hwrites bytes
  have hlength : (Int32.ofNat bytes.length).toInt = bytes.length :=
    Int32.toInt_ofNat_of_lt (by unfold greatestInt at hbytes; omega)
  have hcount : byteCount 1 (Int32.ofNat bytes.length) = bytes.length := by
    rw [byteCount, hlength]
    exact Nat.one_mul _
  have hall : bytes.take (byteCount 1 (Int32.ofNat bytes.length)) = bytes := by
    rw [hcount, List.take_length]
  have hstack : (machine.pushing
      [.stream id, .buffer bytes, .int 1, .int (Int32.ofNat bytes.length)]).stack =
      .int (Int32.ofNat bytes.length) :: .int 1 :: .buffer bytes :: .stream id ::
        machine.stack := rfl
  have hwork : writeMember (machine.pushing
      [.stream id, .buffer bytes, .int 1, .int (Int32.ofNat bytes.length)]) =
      .ok () { machine with
        stack := .int (Int32.ofNat bytes.length) :: machine.stack, channels } := by
    rw [writeMember_eq hstack hholds.contains, hall]
    simp [pushing, hwrite, countValue, Nat.min_eq_left hbytes]
  have hanswered := ok_of_work hwork declared
  exact ⟨declared, channels, callOn_eq ((hcall receiver _).trans hanswered) rfl, hafter, hlocate⟩

/-- Bytes are taken out of a file from its place on, as an array of just as many. -/
theorem callOn_read (receiver : TypeId) {path : Path} {mode : OpenMode} {offset : Nat}
    {data : List UInt8} {size count : Int32} (hnames : NamesMember env ref .read)
    (hreads : mode.reads) (hholds : machine.channels.Holds id path mode offset data)
    (htypes : machine.types.Reachable) :
    let bytes := (data.drop offset).take (byteCount size count)
    ∃ type channels types,
      callOn env ref receiver [.stream id, .int size, .int count] machine =
        .ok (type, .buffer bytes) { machine with channels, types } ∧
      channels.Holds id path mode (offset + bytes.length) data ∧
      machine.types.array .char bytes.length = .ok (type, types) := by
  intro bytes
  obtain ⟨declared, hcall⟩ := exists_call_eq hnames
  obtain ⟨channels, hread, hafter⟩ := hholds.read hreads (byteCount size count)
  obtain ⟨⟨type, types⟩, htype⟩ := htypes.exists_charArray bytes.length
  have hstack : (machine.pushing [.stream id, .int size, .int count]).stack =
      .int count :: .int size :: .stream id :: machine.stack := rfl
  have hwork : readMember (machine.pushing [.stream id, .int size, .int count]) =
      .ok type { machine with stack := .buffer bytes :: machine.stack, channels, types } := by
    have hmade : (machine.pushing [.stream id, .int size, .int count]).types.array .char
        ((machine.pushing [.stream id, .int size, .int count]).channels.read id
          (byteCount size count)).1.length = .ok (type, types) := by
      simp only [pushing, hread]
      exact htype
    rw [readMember_eq hstack hholds.contains hmade]
    simp [pushing, hread, bytes]
  exact ⟨type, channels, types, callOn_eq ((hcall receiver _).trans hwork) rfl, hafter, htype⟩

end ScopeMachine.Machine
