/-
# Members that the machine carries out

A member takes the value that it is called on and its arguments from the stack,
pushes one result and answers the type of that result. Most conversions are
declared only: they leave the stack as it is and answer their declared type.
-/

import ScopeMachine.Machine.State
import ScopeMachine.Member
import ScopeMachine.Text.Basic
import ScopeMachine.Trace.Render

namespace ScopeMachine

namespace Value

/-- The text of a value that is held under a code. What is held by reference
shows where it is, which for an array is its place in memory. -/
def scalarText (value : Value) (code : TypeCode) (place : String) : String :=
  match code, value with
  | .char, .char character => String.singleton (Text.charOfByte character)
  | .wideChar, .wideChar character => String.singleton character
  | .bool, _ => value.truthText
  | _, .float number => floatText number
  | _, .buffer _ => place
  | _, .stream id => id.text
  | _, .address target => target.text
  | _, _ => toString (value.ordinal?.getD 0).toInt

end Value

namespace Machine

/-- The greatest integer; a larger count is answered by it. -/
def greatestInt : Nat := 2147483647

/-- A count as an integer. -/
def countValue (count : Nat) : Value :=
  .int (Int32.ofNat (min count greatestInt))

/-- The bytes in `count` items of `size` bytes, negative numbers taken as zero. -/
def byteCount (size count : Int32) : Nat :=
  size.toInt.toNat * count.toInt.toNat

/-- An operand as a stream with a slot. -/
def streamOperand (value : Value) : Exec StreamId := fun machine =>
  match value with
  | .stream id =>
    if machine.channels.contains id then .ok id machine else .error (.notAStream id) machine
  | _ => .error (.typeMismatch .stream (some value.kind)) machine

/-- An operand as the bytes of an array. -/
def bufferOperand (value : Value) : Exec (List UInt8) := fun machine =>
  match value with
  | .buffer bytes => .ok bytes machine
  | _ => .error (.typeMismatch .array (some value.kind)) machine

/-- An operand as an integer. -/
def intOperand (value : Value) : Exec Int32 := fun machine =>
  match value.ordinal? with
  | some n => .ok n machine
  | none => .error (.typeMismatch .int (some value.kind)) machine

/-- The first `count` bytes of an array, which must have as many. -/
def leading (bytes : List UInt8) (count : Nat) : Exec (List UInt8) := fun machine =>
  if count ≤ bytes.length then .ok (bytes.take count) machine
  else .error (.outOfRange count bytes.length) machine

/-- A slice that an array has can be taken. -/
theorem leading_of_le {bytes : List UInt8} {count : Nat} (hcount : count ≤ bytes.length) :
    leading bytes count = pure (bytes.take count) := by
  funext machine
  exact if_pos hcount

/-- A count that is cut to the length is never too much. -/
@[simp]
theorem leading_min (bytes : List UInt8) (count : Nat) :
    leading bytes (min count bytes.length) = pure (bytes.take count) := by
  rw [leading_of_le (Nat.min_le_right _ _), ← List.take_eq_take_min]

/-- There are as many bytes as stand before the first NUL, or all of them. -/
@[simp]
theorem leading_idxOf (bytes : List UInt8) :
    leading bytes (bytes.idxOf 0) = pure (Text.beforeNul bytes) := by
  rw [leading_of_le List.idxOf_le_length]
  congr 1
  induction bytes with
  | nil => rfl
  | cons byte rest ih =>
    cases hnul : byte == 0 with
    | true => simp [List.idxOf_cons, Text.beforeNul, hnul, bne]
    | false => simpa [List.idxOf_cons, Text.beforeNul, hnul, bne] using ih

/-- The text of an array up to its first NUL. -/
def textOperand (value : Value) : Exec String := do
  let bytes ← bufferOperand value
  let text ← leading bytes (bytes.idxOf 0)
  return Text.ofBytes text

/-- Of an array there is always a text. -/
theorem textOperand_eq (value : Value) :
    textOperand value = do
      let bytes ← bufferOperand value
      return Text.ofBytes (Text.beforeNul bytes) := by
  simp only [textOperand, leading_idxOf, pure_bind]

/-- The size of the values of a type. -/
def sizeMember (receiver : TypeId) : Exec Unit := do
  let _ ← popOperands Member.size.name 1
  let size ← askTypes (·.sizeOf receiver)
  push (countValue size)

/-- The number of elements of an array; other values count as one. -/
def lengthMember (receiver : TypeId) : Exec Unit := do
  let _ ← popOperands Member.length.name 1
  let shape ← askTypes (·.shape receiver)
  push (countValue ((shape.layout?.map ArrayLayout.count).getD 1))

/-- The place of an array that is shown now. -/
def shownPlace (env : Environment) : Exec String := fun machine =>
  .ok (env.places ⟨machine.types.size⟩) machine

/-- Looking where an array stands changes nothing. -/
theorem shownPlace_bind {α : Type} (env : Environment) (next : String → Exec α)
    (machine : Machine) :
    (shownPlace env >>= next) machine = next (env.places ⟨machine.types.size⟩) machine := rfl

/-- A value as a text. Its type is an array of just that length. -/
def toStrMember (env : Environment) (receiver : TypeId) : Exec TypeId := do
  let operands ← popOperands Member.toStr.name 1
  let code ← askTypes (·.code receiver)
  let place ← shownPlace env
  let bytes := Text.encode (operands[0].scalarText code place)
  let type ← charArrayType bytes.length
  push (.buffer bytes)
  return type

/-- Write a line of text, and answer whether all of it was written. -/
def putsMember : Exec Unit := do
  let operands ← popOperands Member.puts.name 2
  let stream ← streamOperand operands[0]
  let text ← textOperand operands[1]
  let line := Text.encode text ++ [0x0a]
  let written ← onChannels (·.write stream line)
  push (.bool (written = line.length))

/-- Bind a stream to a file, and answer whether that was possible. -/
def openMember (member : Member)
    (work : Channels → StreamId → String → String → Bool × Channels) : Exec Unit := do
  let operands ← popOperands member.name 3
  let stream ← streamOperand operands[0]
  let path ← textOperand operands[1]
  let mode ← textOperand operands[2]
  let opened ← onChannels (work · stream path mode)
  push (.bool opened)

/-- Close a stream, and answer whether it was open. -/
def closeMember : Exec Unit := do
  let operands ← popOperands Member.close.name 1
  let stream ← streamOperand operands[0]
  let closed ← onChannels (·.close stream)
  push (.bool closed)

/-- Deliver what was written, and answer whether the stream is open. -/
def flushMember : Exec Unit := do
  let operands ← popOperands Member.flush.name 1
  let stream ← streamOperand operands[0]
  let flushed ← onChannels fun channels => (channels.flush stream, channels)
  push (.bool flushed)

/-- Choose the orientation of a stream, and answer it. -/
def wideMember : Exec Unit := do
  let operands ← popOperands Member.wide.name 2
  let stream ← streamOperand operands[0]
  let mode ← intOperand operands[1]
  let orientation ← onChannels (·.orient stream mode.toInt)
  push (.int (Int32.ofInt orientation))

/-- Read bytes. Their type is an array of just as many. -/
def readMember : Exec TypeId := do
  let operands ← popOperands Member.read.name 3
  let stream ← streamOperand operands[0]
  let size ← intOperand operands[1]
  let count ← intOperand operands[2]
  let bytes ← onChannels (·.read stream (byteCount size count))
  let type ← charArrayType bytes.length
  push (.buffer bytes)
  return type

/-- Write bytes of an array, and answer how many whole items were written. -/
def writeMember : Exec Unit := do
  let operands ← popOperands Member.write.name 4
  let stream ← streamOperand operands[0]
  let bytes ← bufferOperand operands[1]
  let size ← intOperand operands[2]
  let count ← intOperand operands[3]
  let sent ← leading bytes (min (byteCount size count) bytes.length)
  let written ← onChannels (·.write stream sent)
  push (countValue (if 0 < size.toInt then written / size.toInt.toNat else 0))

/-- Carry out a member of a value of type `receiver`, and answer the type of the
result, which is `declared` unless the member makes its own. -/
def callMember (env : Environment) (member : Member) (receiver declared : TypeId) :
    Exec TypeId :=
  match member with
  | .size => do sizeMember receiver; return declared
  | .length => do lengthMember receiver; return declared
  | .toStr => toStrMember env receiver
  | .puts => do putsMember; return declared
  | .open => do openMember .open Channels.openFile; return declared
  | .reopen => do openMember .reopen Channels.reopenFile; return declared
  | .close => do closeMember; return declared
  | .flush => do flushMember; return declared
  | .wide => do wideMember; return declared
  | .read => readMember
  | .write => do writeMember; return declared
  | .toWstr | .toInt | .toChr | .toFlt | .toBool | .toWchr | .toByte => return declared

end Machine

end ScopeMachine
