/-
# Channels and their sink

Output is only ever added to: no operation on streams and files looks at what the
sink has kept. So replacing the sink commutes with every operation, and the one
that may send output, writing, sends the same piece whatever the sink is.
-/

import ScopeMachine.Stream.Channels

namespace ScopeMachine.Channels

variable (channels : Channels) (sink : Sink) (id : StreamId)

/-- The same streams and files with another sink. -/
def withSink : Channels :=
  { channels with sink }

@[simp]
theorem sink_withSink : (channels.withSink sink).sink = sink := rfl

@[simp]
theorem disk_withSink : (channels.withSink sink).disk = channels.disk := rfl

@[simp]
theorem withSink_self : channels.withSink channels.sink = channels := rfl

@[simp]
theorem withSink_withSink (later : Sink) :
    (channels.withSink sink).withSink later = channels.withSink later := rfl

@[simp]
theorem slot?_withSink : (channels.withSink sink).slot? id = channels.slot? id := rfl

@[simp]
theorem contains_withSink : (channels.withSink sink).contains id = channels.contains id := rfl

@[simp]
theorem isOpen_withSink : (channels.withSink sink).isOpen id = channels.isOpen id := rfl

@[simp]
theorem setSlot_withSink (slot : StreamSlot) :
    (channels.withSink sink).setSlot id slot = (channels.setSlot id slot).withSink sink := rfl

theorem openFile_withSink (path mode : String) :
    (channels.withSink sink).openFile id path mode =
      ((channels.openFile id path mode).1, (channels.openFile id path mode).2.withSink sink) := by
  simp only [openFile, slot?_withSink, disk_withSink]
  cases channels.slot? id with
  | none => rfl
  | some slot =>
      cases OpenMode.parse mode with
      | none => rfl
      | some parsed =>
          dsimp only
          cases openOnDisk channels.disk path parsed <;> rfl

theorem close_withSink :
    (channels.withSink sink).close id =
      ((channels.close id).1, (channels.close id).2.withSink sink) := by
  by_cases hopen : channels.isOpen id <;> simp [close, hopen]

theorem reopenFile_withSink (path mode : String) :
    (channels.withSink sink).reopenFile id path mode =
      ((channels.reopenFile id path mode).1,
        (channels.reopenFile id path mode).2.withSink sink) := by
  simp only [reopenFile, close_withSink, openFile_withSink]

theorem orient_withSink (mode : Int) :
    (channels.withSink sink).orient id mode =
      ((channels.orient id mode).1, (channels.orient id mode).2.withSink sink) := by
  simp only [orient, slot?_withSink]
  cases channels.slot? id <;> rfl

theorem read_withSink (limit : Nat) :
    (channels.withSink sink).read id limit =
      ((channels.read id limit).1, (channels.read id limit).2.withSink sink) := by
  simp only [read, slot?_withSink, disk_withSink]
  rcases channels.slot? id with _ | ⟨handle, orientation⟩
  · rfl
  · cases handle with
    | file path mode offset =>
        dsimp only
        cases mode.reads <;> rfl
    | _ => rfl

/-- The text that a program adds to the output by writing, if the stream is its
standard output. -/
def sent? (bytes : List UInt8) : Option String :=
  match (channels.slot? id).map StreamSlot.handle with
  | some .standardOutput => some (Text.decode bytes)
  | _ => none

/-- Writing goes on in the same way whatever the sink is, and sends the same text. -/
theorem write_withSink (bytes : List UInt8) :
    (channels.withSink sink).write id bytes =
      ((channels.write id bytes).1, (channels.write id bytes).2.withSink
        (((channels.sent? id bytes).map sink.print).getD sink)) := by
  simp only [write, sent?, slot?_withSink, disk_withSink]
  rcases channels.slot? id with _ | ⟨handle, orientation⟩
  · rfl
  · cases handle with
    | file path mode offset =>
        dsimp only
        cases mode.writes <;> cases bytes <;> rfl
    | _ => rfl

end ScopeMachine.Channels
