/-
# Bytes that streams take up and give back

Writing to a slot that is open for it hands over all of the bytes: standard output sends
them on, standard error lets them go, and a file has them from its place on. Reading from
a file gives the bytes from its place on, as many as are wanted or as there are. Either
way the place of the file moves behind the bytes, and nothing else changes.
-/

import Mathlib.Tactic.SplitIfs
import ScopeMachine.Proofs.Streams.Requests

namespace ScopeMachine

namespace Disk

variable {disk : Disk} {path : Path}

/-- Bytes written at the end are added. -/
@[simp]
theorem overwrite_length (contents bytes : List UInt8) :
    overwrite contents contents.length bytes = contents ++ bytes := by
  simp [overwrite]

theorem isSome_contents?_setContents (hheld : (disk.contents? path).isSome)
    (bytes : List UInt8) (other : Path) :
    ((disk.setContents path bytes).contents? other).isSome = (disk.contents? other).isSome := by
  by_cases hother : other = path
  · rw [hother, contents?_setContents_self, hheld]
    rfl
  · rw [contents?_setContents_of_ne disk bytes hother]

/-- Names lead where they led as long as there are the same files. -/
theorem follow_setContents (hheld : (disk.contents? path).isSome) (bytes : List UInt8)
    (here : Path) (names : List String) :
    (disk.setContents path bytes).follow here names = disk.follow here names := by
  induction names generalizing here with
  | nil => rfl
  | cons name rest ih =>
      have hdirectories : (disk.setContents path bytes).directories = disk.directories := rfl
      simp only [follow, hdirectories, isSome_contents?_setContents hheld, ih]

/-- A path leads where it led whatever is put into the files that are there. -/
theorem locate_setContents (hheld : (disk.contents? path).isSome) (bytes : List UInt8) :
    (disk.setContents path bytes).locate = disk.locate := by
  funext name
  have hhere : (disk.setContents path bytes).here = disk.here := rfl
  simp only [locate, follow_setContents hheld, hhere]

/-- A name that is still free leads to the file that is put there. -/
theorem follow_setContents_of_vacant (bytes : List UInt8) {here : Path} {names : List String}
    (hvacant : disk.follow here names = some (.vacant path)) :
    (disk.setContents path bytes).follow here names = some (.file path) := by
  induction names generalizing here with
  | nil => cases hvacant
  | cons name rest ih =>
      have hdirectories : (disk.setContents path bytes).directories = disk.directories := rfl
      simp only [follow, hdirectories] at hvacant ⊢
      split_ifs at hvacant with hstay hup hlong hthere hrest hfile
      · rw [if_pos hstay, ih hvacant]
      · rw [if_neg hstay, if_pos hup, ih hvacant]
      · rw [if_neg hstay, if_neg hup, if_neg hlong, if_pos hthere, ih hvacant]
      · cases hvacant
      · cases hvacant
        rw [if_neg hstay, if_neg hup, if_neg hlong, if_neg hthere, if_neg hrest,
          contents?_setContents_self]
        rfl

/-- A file that names lead to is there. -/
theorem isSome_of_follow_file {here : Path} {names : List String}
    (hfile : disk.follow here names = some (.file path)) : (disk.contents? path).isSome := by
  induction names generalizing here with
  | nil => cases hfile
  | cons name rest ih =>
      simp only [follow] at hfile
      split_ifs at hfile with hstay hup hlong hthere hrest hheld
      · exact ih hfile
      · exact ih hfile
      · exact ih hfile
      · cases hfile
        exact hheld
      · cases hfile

/-- A file that a path leads to is there. -/
theorem isSome_of_locate_file {name : String} (hfile : disk.locate name = some (.file path)) :
    (disk.contents? path).isSome := by
  unfold locate at hfile
  split at hfile
  · cases hfile
  · exact isSome_of_follow_file hfile

/-- A path to a name that is still free leads to the file that is put there. -/
theorem locate_setContents_of_vacant {name : String} (bytes : List UInt8)
    (hvacant : disk.locate name = some (.vacant path)) :
    (disk.setContents path bytes).locate name = some (.file path) := by
  unfold locate at hvacant ⊢
  split at hvacant
  · cases hvacant
  · rename_i hpath
    rw [if_neg hpath]
    exact follow_setContents_of_vacant bytes hvacant

end Disk

namespace Channels

variable {channels : Channels} {id : StreamId}

/-- A slot that bytes can be written to. -/
def Writable (channels : Channels) (id : StreamId) : Prop :=
  ∃ slot, channels.slot? id = some slot ∧
    (slot.handle = .standardOutput ∨ slot.handle = .standardError ∨
      ∃ path mode offset, slot.handle = .file path mode offset ∧ mode.writes)

theorem Writable.contains (hwritable : channels.Writable id) : channels.contains id := by
  obtain ⟨slot, hslot, -⟩ := hwritable
  rw [← isSome_status?, status?, hslot]
  rfl

/-- The contents of a file; nothing if it is gone. -/
def contents (channels : Channels) (path : Path) : List UInt8 :=
  (channels.disk.contents? path).getD []

/-- Where writing to an open file begins: at its end if it was opened for appending, and
at its place otherwise. -/
def writingPlace (channels : Channels) (path : Path) (mode : OpenMode) (offset : Nat) : Nat :=
  if mode.appends then (channels.contents path).length else offset

/-- What has become of the streams once all of `bytes` went to slot `id`. -/
inductive Receives (id : StreamId) (bytes : List UInt8) (channels : Channels) :
    Channels → Prop
  /-- Standard output sends them on. -/
  | standardOutput {orientation : Int}
      (hslot : channels.slot? id = some ⟨.standardOutput, orientation⟩) :
      Receives id bytes channels { channels with sink := channels.sink.write bytes }
  /-- Standard error lets them go. -/
  | standardError {orientation : Int}
      (hslot : channels.slot? id = some ⟨.standardError, orientation⟩) :
      Receives id bytes channels channels
  /-- A file has them where writing begins, and its place is behind them. -/
  | file {path : Path} {mode : OpenMode} {offset : Nat} {orientation : Int} {after : Channels}
      (hslot : channels.slot? id = some ⟨.file path mode offset, orientation⟩)
      (hheld : after.disk.contents? path = some (Disk.overwrite (channels.contents path)
        (channels.writingPlace path mode offset) bytes))
      (hmoved : after.slot? id = some
        ⟨.file path mode (channels.writingPlace path mode offset + bytes.length), orientation⟩)
      (hfiles : ∀ other, other ≠ path →
        after.disk.contents? other = channels.disk.contents? other)
      (hslots : ∀ other, other ≠ id → after.slot? other = channels.slot? other)
      (hdirectories : after.disk.directories = channels.disk.directories)
      (hsink : after.sink = channels.sink) :
      Receives id bytes channels after

theorem slot?_setSlot_self {old : StreamSlot} (hold : channels.slot? id = some old)
    (slot : StreamSlot) : (channels.setSlot id slot).slot? id = some slot := by
  rw [slot?_setSlot, if_pos rfl, hold, Option.map_some]

theorem slot?_setSlot_of_ne {other : StreamId} (hother : other ≠ id) (slot : StreamSlot) :
    (channels.setSlot id slot).slot? other = channels.slot? other := by
  rw [slot?_setSlot, if_neg (Ne.symm hother)]

/-- Writing to a file puts the bytes where writing begins. -/
theorem write_file {path : Path} {mode : OpenMode} {offset : Nat} {orientation : Int}
    (hslot : channels.slot? id = some ⟨.file path mode offset, orientation⟩)
    (hwrites : mode.writes) {bytes : List UInt8} (hbytes : bytes ≠ []) :
    channels.write id bytes =
      (bytes.length,
        { channels with
          disk := channels.disk.setContents path (Disk.overwrite (channels.contents path)
            (channels.writingPlace path mode offset) bytes) }.setSlot id
          ⟨.file path mode (channels.writingPlace path mode offset + bytes.length),
            orientation⟩) := by
  simp [write, hslot, hwrites, hbytes, contents, writingPlace]

/-- A slot that can be written to takes up every byte. -/
theorem write_of_writable {bytes : List UInt8} (hwritable : channels.Writable id)
    (hbytes : bytes ≠ []) :
    ∃ after, channels.write id bytes = (bytes.length, after) ∧
      Receives id bytes channels after := by
  obtain ⟨⟨handle, orientation⟩, hslot, hhandle⟩ := hwritable
  dsimp only at hhandle
  obtain rfl | rfl | ⟨path, mode, offset, rfl, hwrites⟩ := hhandle
  · exact ⟨_, by simp [write, hslot], .standardOutput hslot⟩
  · exact ⟨_, by simp [write, hslot], .standardError hslot⟩
  · refine ⟨_, write_file hslot hwrites hbytes, .file hslot ?_ ?_ ?_ ?_ ?_ ?_⟩
    · exact Disk.contents?_setContents_self _ _ _
    · exact slot?_setSlot_self hslot _
    · exact fun other hother => Disk.contents?_setContents_of_ne _ _ hother
    · exact fun other hother => slot?_setSlot_of_ne hother _
    · rfl
    · rfl

/-! ## One file open in one slot -/

/-- The slot is open on a file that holds `data`, with its place at `offset`. -/
structure Holds (channels : Channels) (id : StreamId) (path : Path) (mode : OpenMode)
    (offset : Nat) (data : List UInt8) : Prop where
  slot : channels.slot? id = some ⟨.file path mode offset, 0⟩
  held : channels.disk.contents? path = some data

namespace Holds

variable {path : Path} {mode : OpenMode} {offset : Nat} {data : List UInt8}

theorem contains (hholds : channels.Holds id path mode offset data) : channels.contains id := by
  rw [← isSome_status?, status?, hholds.slot]
  rfl

/-- Bytes that are written when the place is at the end are added to the file. -/
theorem write (hholds : channels.Holds id path mode data.length data) (hwrites : mode.writes)
    (bytes : List UInt8) :
    ∃ after, channels.write id bytes = (bytes.length, after) ∧
      after.Holds id path mode (data ++ bytes).length (data ++ bytes) ∧
      after.disk.locate = channels.disk.locate := by
  by_cases hbytes : bytes = []
  · subst hbytes
    refine ⟨channels, ?_, ?_, rfl⟩
    · simp [Channels.write, hholds.slot]
    · rwa [List.append_nil]
  · have hcontents : channels.contents path = data := by rw [contents, hholds.held]; rfl
    have hplace : channels.writingPlace path mode data.length = data.length := by
      rw [writingPlace, hcontents, ite_self]
    refine ⟨_, write_file hholds.slot hwrites hbytes, ⟨?_, ?_⟩, ?_⟩
    · rw [hplace, List.length_append]
      exact slot?_setSlot_self hholds.slot _
    · rw [hcontents, hplace, Disk.overwrite_length]
      exact Disk.contents?_setContents_self _ _ _
    · exact Disk.locate_setContents (by rw [hholds.held]; rfl) _

/-- Reading goes on at the place, and moves it behind what was read. -/
theorem read (hholds : channels.Holds id path mode offset data) (hreads : mode.reads)
    (limit : Nat) :
    ∃ after, channels.read id limit = ((data.drop offset).take limit, after) ∧
      after.Holds id path mode (offset + ((data.drop offset).take limit).length) data := by
  refine ⟨_, ?_, slot?_setSlot_self hholds.slot _, hholds.held⟩
  simp [Channels.read, hholds.slot, hreads, hholds.held]

end Holds

/-! ## Opening -/

/-- A mode that empties files lets them be written. -/
theorem writes_of_empties {mode : String} {parsed : OpenMode}
    (hmode : OpenMode.parse mode = some parsed) (hempties : parsed.empties) : parsed.writes := by
  unfold OpenMode.parse at hmode
  split at hmode <;> cases hmode <;> first | rfl | cases hempties

/-- What is opened is what the disk allows. -/
theorem openOnDisk_of_openFile {path mode : String} {after : Channels} {parsed : OpenMode}
    (hmode : OpenMode.parse mode = some parsed)
    (hopened : channels.openFile id path mode = (true, after)) :
    ∃ old handle disk, channels.slot? id = some old ∧
      openOnDisk channels.disk path parsed = some (handle, disk) ∧
      after = { channels with disk }.setSlot id ⟨handle, 0⟩ := by
  unfold openFile at hopened
  rw [hmode] at hopened
  split at hopened
  · rename_i old _ hslot hparsed
    cases hparsed
    split at hopened
    · rename_i handle disk hdisk
      cases hopened
      exact ⟨old, handle, disk, hslot, hdisk, rfl⟩
    · cases hopened
  · cases hopened

/-- A file that was opened in a mode that empties it is empty, and is the one that the path
leads to. -/
theorem holds_of_openFile_empties {path mode : String} {after : Channels} {parsed : OpenMode}
    (hmode : OpenMode.parse mode = some parsed) (hempties : parsed.empties)
    (hopened : channels.openFile id path mode = (true, after)) :
    ∃ found, after.Holds id found parsed 0 [] ∧ after.disk.locate path = some (.file found) := by
  obtain ⟨old, handle, disk, hslot, hdisk, rfl⟩ := openOnDisk_of_openFile hmode hopened
  unfold openOnDisk at hdisk
  cases hfound : channels.disk.locate path with
  | none =>
      rw [hfound] at hdisk
      cases hdisk
  | some location =>
      rw [hfound] at hdisk
      cases location with
      | file found =>
          cases hdisk
          refine ⟨found, ⟨slot?_setSlot_self hslot _, ?_⟩, ?_⟩
          · rw [if_pos hempties]
            exact Disk.contents?_setContents_self _ _ _
          · rw [if_pos hempties]
            have hheld := Disk.isSome_of_locate_file hfound
            exact (congrFun (Disk.locate_setContents hheld []) path).trans hfound
      | directory =>
          simp [writes_of_empties hmode hempties] at hdisk
      | vacant free =>
          dsimp only at hdisk
          split at hdisk
          · cases hdisk
            exact ⟨free, ⟨slot?_setSlot_self hslot _, Disk.contents?_setContents_self _ _ _⟩,
              Disk.locate_setContents_of_vacant [] hfound⟩
          · cases hdisk

/-- A file that was opened in a mode that does not empty it holds what it held. -/
theorem holds_of_openFile_keeps {path mode : String} {after : Channels} {parsed : OpenMode}
    {found : Path} {data : List UInt8}
    (hmode : OpenMode.parse mode = some parsed) (hkeeps : parsed.empties = false)
    (hfound : channels.disk.locate path = some (.file found))
    (hheld : channels.disk.contents? found = some data)
    (hopened : channels.openFile id path mode = (true, after)) :
    after.Holds id found parsed 0 data := by
  obtain ⟨old, handle, disk, hslot, hdisk, rfl⟩ := openOnDisk_of_openFile hmode hopened
  unfold openOnDisk at hdisk
  rw [hfound, hkeeps] at hdisk
  cases hdisk
  exact ⟨slot?_setSlot_self hslot _, hheld⟩

theorem disk_close (channels : Channels) (id : StreamId) :
    (channels.close id).2.disk = channels.disk := by
  unfold close
  split <;> rfl

end Channels

end ScopeMachine
