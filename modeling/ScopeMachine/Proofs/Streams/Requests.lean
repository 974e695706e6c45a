/-
# Requests to streams

Streams are asked to add, open, reopen, close and use slots, and to choose or tell the
orientation of one. Requests are data here, so that sequences of them can be spoken of,
with the answers that they get. Every request is an event of one slot: the status of this
slot changes as the event says, and what is done to it shows on no other slot.
-/

import ScopeMachine.Stream.Channels

namespace ScopeMachine

/-- What happens to a stream slot. -/
inductive StreamEvent where
  /-- The slot is added. -/
  | allocated
  /-- A file is opened, or cannot be. -/
  | opened (done : Bool)
  /-- The slot is closed, and a file is opened in its place or cannot be. -/
  | reopened (done : Bool)
  /-- The slot is closed. -/
  | closed
  /-- The orientation is asked for, and chosen by a mode if it is undecided. -/
  | oriented (mode : Int)
  /-- Bytes are read, written or delivered. -/
  | used
deriving DecidableEq

/-- What can be told of a slot without reading or writing. -/
structure StreamStatus where
  isOpen : Bool
  orientation : Int
deriving DecidableEq

/-- The status of a slot, if there is one, after another event. -/
def StreamStatus.next? (status : Option StreamStatus) : StreamEvent → Option StreamStatus
  | .allocated => some ⟨false, 0⟩
  | .opened done => status.map fun old => if done then ⟨true, 0⟩ else old
  | .reopened done =>
    status.map fun old =>
      if done then ⟨true, 0⟩ else if old.isOpen then ⟨false, 0⟩ else old
  | .closed => status.map fun old => if old.isOpen then ⟨false, 0⟩ else old
  | .oriented mode =>
    status.map fun old =>
      { old with orientation := if old.orientation = 0 then mode.sign else old.orientation }
  | .used => status

/-- Closing sets an open slot free, and changes nothing about a closed one. -/
theorem StreamStatus.next?_closed (status : Option StreamStatus) :
    next? status .closed =
      if status.any StreamStatus.isOpen then status.map fun _ => ⟨false, 0⟩ else status := by
  cases status with
  | none => rfl
  | some old =>
      simp only [next?, Option.map_some, Option.any_some]
      split <;> rfl

namespace Channels

/-- What streams can be asked to do. -/
inductive Request where
  | allocate
  | openFile (id : StreamId) (path mode : String)
  | reopenFile (id : StreamId) (path mode : String)
  | close (id : StreamId)
  | flush (id : StreamId)
  | orient (id : StreamId) (mode : Int)
  | write (id : StreamId) (bytes : List UInt8)
  | read (id : StreamId) (limit : Nat)

/-- The answer to a request. -/
inductive Answer where
  | slot (id : StreamId)
  | done (done : Bool)
  | orientation (orientation : Int)
  | written (count : Nat)
  | bytes (bytes : List UInt8)

/-- Do what is asked. -/
def Request.perform (channels : Channels) : Request → Answer × Channels
  | .allocate => let (id, after) := channels.allocate; (.slot id, after)
  | .openFile id path mode =>
    let (done, after) := channels.openFile id path mode; (.done done, after)
  | .reopenFile id path mode =>
    let (done, after) := channels.reopenFile id path mode; (.done done, after)
  | .close id => let (done, after) := channels.close id; (.done done, after)
  | .flush id => (.done (channels.flush id), channels)
  | .orient id mode =>
    let (orientation, after) := channels.orient id mode; (.orientation orientation, after)
  | .write id bytes => let (count, after) := channels.write id bytes; (.written count, after)
  | .read id limit => let (bytes, after) := channels.read id limit; (.bytes bytes, after)

/-- What was asked and answered, the oldest first. -/
abbrev Log := List (Request × Answer)

/-- Requests one after the other: each with its answer, and the streams in the end. -/
def serve (channels : Channels) : List Request → Log × Channels
  | [] => ([], channels)
  | request :: rest =>
    let (answer, after) := request.perform channels
    let (log, last) := serve after rest
    ((request, answer) :: log, last)

/-- The slot that was asked for something, or added, and what happened to it. -/
def Log.event? : Request × Answer → Option (StreamId × StreamEvent)
  | (.allocate, .slot id) => some (id, .allocated)
  | (.openFile id _ _, .done done) => some (id, .opened done)
  | (.reopenFile id _ _, .done done) => some (id, .reopened done)
  | (.close id, _) => some (id, .closed)
  | (.orient id mode, _) => some (id, .oriented mode)
  | (.flush id, _) => some (id, .used)
  | (.write id _, _) => some (id, .used)
  | (.read id _, _) => some (id, .used)
  | _ => none

variable {channels : Channels}

/-- The status of a slot. -/
def status? (channels : Channels) (id : StreamId) : Option StreamStatus :=
  (channels.slot? id).map fun slot => ⟨slot.handle ≠ .closed, slot.orientation⟩

theorem isSome_status? (channels : Channels) (id : StreamId) :
    (channels.status? id).isSome = channels.contains id := by
  rw [status?, Option.isSome_map, slot?, contains, Bool.eq_iff_iff]
  simp

theorem isOpen_eq (channels : Channels) (id : StreamId) :
    channels.isOpen id = (channels.status? id).any StreamStatus.isOpen := by
  rw [isOpen, status?, Option.any_map]

/-- The orientation that is answered. -/
theorem orient_eq (channels : Channels) (id : StreamId) (mode : Int) :
    (channels.orient id mode).1 =
      (StreamStatus.next? (channels.status? id) (.oriented mode)).elim 0
        StreamStatus.orientation := by
  unfold orient status?
  cases channels.slot? id <;> rfl

theorem slot?_setSlot (channels : Channels) (id other : StreamId) (slot : StreamSlot) :
    (channels.setSlot id slot).slot? other =
      if id = other then (channels.slot? other).map fun _ => slot else channels.slot? other := by
  obtain ⟨number⟩ := id
  obtain ⟨wanted⟩ := other
  simp only [slot?, setSlot, Array.getElem?_setIfInBounds, StreamId.mk.injEq]
  by_cases hsame : number = wanted
  · subst hsame
    simp only [if_true]
    split
    · rename_i hless
      rw [Array.getElem?_eq_getElem hless]
      rfl
    · rename_i hbeyond
      rw [Array.getElem?_eq_none (Nat.le_of_not_lt hbeyond)]
      rfl
  · simp only [if_neg hsame]

/-- What is put into a slot shows on no other. -/
theorem status?_setSlot (channels : Channels) (id other : StreamId) (slot : StreamSlot) :
    (channels.setSlot id slot).status? other =
      if id = other then
        (channels.status? other).map fun _ => ⟨slot.handle ≠ .closed, slot.orientation⟩
      else channels.status? other := by
  rw [status?, slot?_setSlot]
  split
  · simp only [status?, Option.map_map]
    rfl
  · rfl

/-- A slot that stays open or closed keeps its status. -/
theorem status?_setSlot_handle {id : StreamId} {slot : StreamSlot} {handle : Handle}
    (hslot : channels.slot? id = some slot) (hhandle : handle = .closed ↔ slot.handle = .closed)
    (other : StreamId) :
    (channels.setSlot id { slot with handle }).status? other = channels.status? other := by
  rw [status?_setSlot]
  split
  · rename_i hsame
    subst hsame
    simp [status?, hslot, hhandle]
  · rfl

/-! ## What each request does to a slot -/

/-- What one event makes of the slots: the slot that it happens to changes as its status
says, and the others stay as they are. -/
def Undergoes (channels : Channels) (id : StreamId) (event : StreamEvent) (later : Channels) :
    Prop :=
  ∀ other, later.status? other =
    if id = other then StreamStatus.next? (channels.status? other) event
    else channels.status? other

theorem undergoes_used {id : StreamId} {later : Channels}
    (hsame : ∀ other, later.status? other = channels.status? other) :
    Undergoes channels id .used later := by
  intro other
  rw [hsame]
  split <;> rfl

theorem undergoes_allocate (channels : Channels) :
    Undergoes channels channels.allocate.1 .allocated channels.allocate.2 := by
  intro other
  obtain ⟨number⟩ := other
  simp only [allocate, status?, slot?, Array.getElem?_push, StreamId.mk.injEq]
  by_cases hlast : number = channels.slots.size
  · subst hlast
    simp only [if_true]
    rfl
  · rw [if_neg hlast, if_neg (Ne.symm hlast)]

/-- What a file is opened on is not closed. -/
theorem ne_closed_of_openOnDisk {disk later : Disk} {path : String} {mode : OpenMode}
    {handle : Handle} (hopened : openOnDisk disk path mode = some (handle, later)) :
    handle ≠ .closed := by
  unfold openOnDisk at hopened
  split at hopened
  · cases hopened
    simp
  · split at hopened <;> cases hopened
    simp
  · split at hopened <;> cases hopened
    simp
  · cases hopened

/-- A file that cannot be opened leaves everything as it was. -/
theorem openFile_eq_of_failed {id : StreamId} {path mode : String}
    (hfailed : (channels.openFile id path mode).1 = false) :
    (channels.openFile id path mode).2 = channels := by
  unfold openFile at hfailed ⊢
  split
  · rename_i hslot hmode
    simp only [hslot, hmode] at hfailed
    split
    · rename_i hopened
      simp [hopened] at hfailed
    · rfl
  · rfl

/-- A slot in which a file has been opened is open and undecided. -/
theorem status?_of_opened {id : StreamId} {path mode : String}
    (hdone : (channels.openFile id path mode).1 = true) (other : StreamId) :
    (channels.openFile id path mode).2.status? other =
      if id = other then (channels.status? other).map fun _ => ⟨true, 0⟩
      else channels.status? other := by
  unfold openFile at hdone ⊢
  split
  · rename_i hslot hmode
    simp only [hslot, hmode] at hdone
    split
    · rename_i handle disk hopened
      have hhandle := ne_closed_of_openOnDisk hopened
      rw [status?_setSlot]
      simp only [hhandle, ne_eq, not_false_eq_true, decide_true]
      rfl
    · rename_i hopened
      simp [hopened] at hdone
  · rename_i hmissing
    split at hdone
    · rename_i hslot hmode
      exact absurd hmode (hmissing _ _ hslot)
    · cases hdone

theorem undergoes_openFile (channels : Channels) (id : StreamId) (path mode : String) :
    Undergoes channels id (.opened (channels.openFile id path mode).1)
      (channels.openFile id path mode).2 := by
  intro other
  cases hdone : (channels.openFile id path mode).1 with
  | true => exact status?_of_opened hdone other
  | false =>
      rw [openFile_eq_of_failed hdone]
      simp [StreamStatus.next?]

theorem undergoes_close (channels : Channels) (id : StreamId) :
    Undergoes channels id .closed (channels.close id).2 := by
  intro other
  have hopen := channels.isOpen_eq id
  unfold close
  split
  · rename_i hclosing
    rw [status?_setSlot]
    split
    · rename_i hsame
      subst hsame
      rw [StreamStatus.next?_closed, if_pos (hopen ▸ hclosing)]
      rfl
    · rfl
  · rename_i hclosed
    split
    · rename_i hsame
      subst hsame
      rw [StreamStatus.next?_closed, if_neg (hopen ▸ hclosed)]
    · rfl

theorem undergoes_reopenFile (channels : Channels) (id : StreamId) (path mode : String) :
    Undergoes channels id (.reopened (channels.reopenFile id path mode).1)
      (channels.reopenFile id path mode).2 := by
  intro other
  have hclose := channels.undergoes_close id other
  unfold reopenFile
  cases hdone : ((channels.close id).2.openFile id path mode).1 with
  | true =>
      rw [status?_of_opened hdone, hclose]
      split
      · simp only [StreamStatus.next?, Option.map_map]
        rfl
      · rfl
  | false =>
      rw [openFile_eq_of_failed hdone, hclose]
      rfl

theorem undergoes_orient (channels : Channels) (id : StreamId) (mode : Int) :
    Undergoes channels id (.oriented mode) (channels.orient id mode).2 := by
  intro other
  unfold orient
  cases hslot : channels.slot? id with
  | none =>
      dsimp only
      split
      · rename_i hsame
        subst hsame
        simp [status?, hslot, StreamStatus.next?]
      · rfl
  | some slot =>
      dsimp only
      rw [status?_setSlot]
      split
      · rename_i hsame
        subst hsame
        simp [status?, hslot, StreamStatus.next?]
      · rfl

theorem undergoes_write (channels : Channels) (id : StreamId) (bytes : List UInt8) :
    Undergoes channels id .used (channels.write id bytes).2 := by
  apply undergoes_used
  intro other
  unfold write
  cases hslot : channels.slot? id with
  | none => rfl
  | some slot =>
      dsimp only
      split
      · rfl
      · rfl
      · rename_i path mode offset hhandle
        split
        · rfl
        split
        · rfl
        refine status?_setSlot_handle ?_ ?_ other
        · exact hslot
        · simp [hhandle]
      · rfl

theorem undergoes_read (channels : Channels) (id : StreamId) (limit : Nat) :
    Undergoes channels id .used (channels.read id limit).2 := by
  apply undergoes_used
  intro other
  unfold read
  cases hslot : channels.slot? id with
  | none => rfl
  | some slot =>
      dsimp only
      split
      · rfl
      · rename_i path mode offset hhandle
        split
        · rfl
        refine status?_setSlot_handle ?_ ?_ other
        · exact hslot
        · simp [hhandle]
      · rfl

/-- Every request is an event of one slot. -/
theorem undergoes_perform (channels : Channels) (request : Request) :
    ∃ id event, Log.event? (request, (request.perform channels).1) = some (id, event) ∧
      Undergoes channels id event (request.perform channels).2 := by
  cases request with
  | allocate => exact ⟨_, _, rfl, channels.undergoes_allocate⟩
  | openFile id path mode => exact ⟨_, _, rfl, channels.undergoes_openFile id path mode⟩
  | reopenFile id path mode => exact ⟨_, _, rfl, channels.undergoes_reopenFile id path mode⟩
  | close id => exact ⟨_, _, rfl, channels.undergoes_close id⟩
  | flush id => exact ⟨_, _, rfl, undergoes_used fun _ => rfl⟩
  | orient id mode => exact ⟨_, _, rfl, channels.undergoes_orient id mode⟩
  | write id bytes => exact ⟨_, _, rfl, channels.undergoes_write id bytes⟩
  | read id limit => exact ⟨_, _, rfl, channels.undergoes_read id limit⟩

end Channels

end ScopeMachine
