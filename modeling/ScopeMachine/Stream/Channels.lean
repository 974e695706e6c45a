/-
# Streams, files and output

A program reaches the world through numbered stream slots. The first three start
as the standard streams, every other slot starts closed, and a slot can be bound
to a file, which then has one place for reading and writing. Failures show as a
false result or a short count and never as errors.

What is written to standard error is let go.
-/

import ScopeMachine.Sink
import ScopeMachine.Stream.Disk
import ScopeMachine.Value

namespace ScopeMachine

/-- What a stream slot is bound to. -/
inductive Handle where
  /-- Nothing. -/
  | closed
  /-- The standard input. -/
  | standardInput
  /-- The standard output. -/
  | standardOutput
  /-- The standard error output. -/
  | standardError
  /-- A directory, from which nothing can be read. -/
  | directory
  /-- A file, how it was opened, and the place of the next byte. -/
  | file (path : Path) (mode : OpenMode) (offset : Nat)
deriving DecidableEq

/-- A stream slot. -/
structure StreamSlot where
  /-- What the slot is bound to. -/
  handle : Handle
  /-- One for wide characters, minus one for bytes, zero while undecided. -/
  orientation : Int := 0
deriving DecidableEq

/-- Everything that a program can read from and write to. -/
structure Channels where
  /-- The stream slots. -/
  slots : Array StreamSlot :=
    #[⟨.standardInput, 0⟩, ⟨.standardOutput, 0⟩, ⟨.standardError, 0⟩]
  /-- The files. -/
  disk : Disk := {}
  /-- What can still be read from the standard input. -/
  input : List UInt8 := []
  /-- Where standard output and announcements go. -/
  sink : Sink := {}
deriving DecidableEq

namespace Channels

/-- The slot of a number. -/
def slot? (channels : Channels) (id : StreamId) : Option StreamSlot :=
  channels.slots[id.index]?

/-- Replace the slot of a number. -/
def setSlot (channels : Channels) (id : StreamId) (slot : StreamSlot) : Channels :=
  { channels with slots := channels.slots.setIfInBounds id.index slot }

/-- Add a closed slot. -/
def allocate (channels : Channels) : StreamId × Channels :=
  (⟨channels.slots.size⟩, { channels with slots := channels.slots.push ⟨.closed, 0⟩ })

/-- Whether there is a slot of this number. -/
def contains (channels : Channels) (id : StreamId) : Bool :=
  id.index < channels.slots.size

/-- Whether a slot is bound to anything. -/
def isOpen (channels : Channels) (id : StreamId) : Bool :=
  (channels.slot? id).any (·.handle ≠ .closed)

/-- Open the file at a path, as far as the disk allows it. -/
def openOnDisk (disk : Disk) (path : String) (mode : OpenMode) : Option (Handle × Disk) :=
  match disk.locate path with
  | some (.file found) =>
    some (.file found mode 0, if mode.empties then disk.setContents found [] else disk)
  | some (.vacant free) =>
    if mode.creates then some (.file free mode 0, disk.setContents free []) else none
  | some .directory => if mode.writes then none else some (.directory, disk)
  | none => none

/-- Bind a slot to a file. A failure leaves the slot as it was. -/
def openFile (channels : Channels) (id : StreamId) (path mode : String) : Bool × Channels :=
  match channels.slot? id, OpenMode.parse mode with
  | some _, some parsed =>
    match openOnDisk channels.disk path parsed with
    | some (handle, disk) => (true, { channels with disk }.setSlot id ⟨handle, 0⟩)
    | none => (false, channels)
  | _, _ => (false, channels)

/-- Close a slot; false if it was not open. -/
def close (channels : Channels) (id : StreamId) : Bool × Channels :=
  if channels.isOpen id then (true, channels.setSlot id ⟨.closed, 0⟩) else (false, channels)

/-- Close a slot and bind it to a file. -/
def reopenFile (channels : Channels) (id : StreamId) (path mode : String) :
    Bool × Channels :=
  (channels.close id).2.openFile id path mode

/-- Deliver what was written; false if the slot is not open. -/
def flush (channels : Channels) (id : StreamId) : Bool :=
  channels.isOpen id

/-- Choose the orientation of an undecided slot by the sign of `mode`, and answer
the orientation. -/
def orient (channels : Channels) (id : StreamId) (mode : Int) : Int × Channels :=
  match channels.slot? id with
  | none => (0, channels)
  | some slot =>
    let orientation := if slot.orientation = 0 then mode.sign else slot.orientation
    (orientation, channels.setSlot id { slot with orientation })

/-- Write bytes and answer how many were written: all of them or none. -/
def write (channels : Channels) (id : StreamId) (bytes : List UInt8) : Nat × Channels :=
  match channels.slot? id with
  | none => (0, channels)
  | some slot =>
    match slot.handle with
    | .standardOutput =>
      (bytes.length, { channels with sink := channels.sink.write bytes })
    | .standardError => (bytes.length, channels)
    | .file path mode offset =>
      if !mode.writes then (0, channels)
      else if bytes.isEmpty then (0, channels)
      else
        let contents := (channels.disk.contents? path).getD []
        let start := if mode.appends then contents.length else offset
        let disk := channels.disk.setContents path (Disk.overwrite contents start bytes)
        (bytes.length,
          { channels with disk }.setSlot id
            { slot with handle := .file path mode (start + bytes.length) })
    | _ => (0, channels)

/-- Read up to `limit` bytes, fewer only at the end. -/
def read (channels : Channels) (id : StreamId) (limit : Nat) : List UInt8 × Channels :=
  match channels.slot? id with
  | none => ([], channels)
  | some slot =>
    match slot.handle with
    | .standardInput =>
      (channels.input.take limit, { channels with input := channels.input.drop limit })
    | .file path mode offset =>
      if !mode.reads then ([], channels)
      else
        let contents := (channels.disk.contents? path).getD []
        let bytes := (contents.drop offset).take limit
        (bytes,
          channels.setSlot id { slot with handle := .file path mode (offset + bytes.length) })
    | _ => ([], channels)

end Channels

end ScopeMachine
