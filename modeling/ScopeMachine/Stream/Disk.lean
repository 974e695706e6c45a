/-
# Files on disk

The disk holds files and directories in one tree, and a program works in one of
the directories. Paths are written with slashes and lead from the root if they
begin with one, and from the working directory otherwise. A path that passes
through something that is no directory, or cannot be a path at all, leads
nowhere.

A file is opened for reading, for writing from its beginning, or for appending,
each of them optionally for both reading and writing. A mode is written as one
letter and an optional plus sign, with the letter `b` allowed anywhere and
without meaning.
-/

import ScopeMachine.Text.Basic

namespace ScopeMachine

/-- What opening a file in a certain way allows and does. -/
structure OpenMode where
  /-- Whether the file can be read. -/
  reads : Bool
  /-- Whether the file can be written. -/
  writes : Bool
  /-- Whether everything is written at the end of the file. -/
  appends : Bool := false
  /-- Whether a missing file is created. -/
  creates : Bool := false
  /-- Whether the file is emptied. -/
  empties : Bool := false
deriving DecidableEq

namespace OpenMode

/-- Read a mode. -/
def parse (mode : String) : Option OpenMode :=
  match mode.toList.filter (· != 'b') with
  | ['r'] => some { reads := true, writes := false }
  | ['w'] => some { reads := false, writes := true, creates := true, empties := true }
  | ['a'] => some { reads := false, writes := true, creates := true, appends := true }
  | ['r', '+'] => some { reads := true, writes := true }
  | ['w', '+'] => some { reads := true, writes := true, creates := true, empties := true }
  | ['a', '+'] => some { reads := true, writes := true, creates := true, appends := true }
  | _ => none

end OpenMode

/-- The names that lead from the root to a file or directory. -/
abbrev Path := List String

/-- A tree of files and directories. -/
structure Disk where
  /-- The contents of every file. -/
  files : List (Path × List UInt8) := []
  /-- The directories but for the root. -/
  directories : List Path := []
  /-- The working directory. -/
  here : Path := []
deriving DecidableEq

/-- What a path leads to. -/
inductive Location where
  /-- A file. -/
  | file (path : Path)
  /-- A directory. -/
  | directory
  /-- A name in a directory that is still free. -/
  | vacant (path : Path)
deriving DecidableEq

namespace Disk

/-- The most bytes that one name of a path may have. -/
def nameLimit : Nat := 255

/-- The most bytes that a path may have. -/
def pathLimit : Nat := 4095

/-- The contents of a file. -/
def contents? (disk : Disk) (path : Path) : Option (List UInt8) :=
  disk.files.lookup path

/-- Put `bytes` into a file, which is created if it is missing. -/
def setContents (disk : Disk) (path : Path) (bytes : List UInt8) : Disk :=
  { disk with files := (path, bytes) :: disk.files.filter (·.1 != path) }

/-- A file holds what was put into it last. -/
@[simp]
theorem contents?_setContents_self (disk : Disk) (path : Path) (bytes : List UInt8) :
    (disk.setContents path bytes).contents? path = some bytes := by
  simp [contents?, setContents]

/-- Putting bytes into a file changes no other file. -/
theorem contents?_setContents_of_ne (disk : Disk) {path other : Path} (bytes : List UInt8)
    (hother : other ≠ path) :
    (disk.setContents path bytes).contents? other = disk.contents? other := by
  have hne : (other == path) = false := by simpa using hother
  simp only [contents?, setContents, List.lookup_cons, hne]
  induction disk.files with
  | nil => rfl
  | cons file files ih =>
    rcases file with ⟨name, contents⟩
    by_cases hname : name = path
    · rw [hname, List.lookup_cons, hne]
      simpa using ih
    · simp [hname, List.lookup_cons, ih]

/-- Follow names from the directory `here`. Above the root there is the root. -/
def follow (disk : Disk) (here : Path) : List String → Option Location
  | [] => some .directory
  | name :: rest =>
    if name = "" ∨ name = "." then disk.follow here rest
    else if name = ".." then disk.follow here.dropLast rest
    else if nameLimit < name.utf8ByteSize then none
    else
      let there := here ++ [name]
      if disk.directories.contains there then disk.follow there rest
      else if rest ≠ [] then none
      else if (disk.contents? there).isSome then some (.file there)
      else some (.vacant there)

/-- What a path written with slashes leads to. -/
def locate (disk : Disk) (path : String) : Option Location :=
  if path.isEmpty ∨ path.contains '\x00' ∨ pathLimit < path.utf8ByteSize then none
  else
    disk.follow (if path.startsWith "/" then [] else disk.here)
      ((Text.fields '/' path.toList).map String.ofList)

/-- The contents of the file at a path written with slashes. -/
def read? (disk : Disk) (path : String) : Option (List UInt8) :=
  match disk.locate path with
  | some (.file found) => disk.contents? found
  | _ => none

/-- A disk with some files and directories, all of them named from the working
directory. -/
def ofNames (here : Path) (files : List (String × List UInt8)) (directories : List String) :
    Disk :=
  let split (path : String) : Path :=
    here ++ ((Text.fields '/' path.toList).map String.ofList).filter fun name =>
      name ≠ "" ∧ name ≠ "."
  { files := files.map fun (path, bytes) => (split path, bytes)
    directories := ("." :: directories).flatMap fun path =>
      (List.range (split path).length).map fun n => (split path).take (n + 1)
    here }

/-- Replace the bytes from `offset` on by `bytes`; a gap is filled with zeros. -/
def overwrite (contents : List UInt8) (offset : Nat) (bytes : List UInt8) : List UInt8 :=
  contents.take offset ++ List.replicate (offset - contents.length) 0 ++ bytes ++
    contents.drop (offset + bytes.length)

end Disk

end ScopeMachine
