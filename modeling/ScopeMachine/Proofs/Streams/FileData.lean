/-
# What is written to a file is read back

A file is opened in a mode that empties it, arrays of bytes are written to it one after the
other, and it is opened again for reading. However the bytes were split for writing, and
whatever is asked for in reading, what is read are the bytes that were written, from the
first on, as far as they were asked for. Writing keeps the place of the file at its end and
reading goes on where it was, so each step only has to say what it does at this place.
-/

import Mathlib
import ScopeMachine.Proofs.Members.Streams

namespace ScopeMachine

/-! ## Bytes in pieces -/

/-- Bytes cut into pieces of given lengths, as far as there are bytes. -/
def pieces (data : List UInt8) : List Nat → List (List UInt8)
  | [] => []
  | limit :: rest => data.take limit :: pieces (data.drop limit) rest

/-- The pieces together are the first bytes, as many as the lengths come to. -/
theorem flatten_pieces (data : List UInt8) (limits : List Nat) :
    (pieces data limits).flatten = data.take limits.sum := by
  induction limits generalizing data with
  | nil => rfl
  | cons limit rest ih => rw [pieces, List.flatten_cons, ih, List.sum_cons, List.take_add]

/-- Behind the first bytes are the same bytes if there were fewer of the first. -/
theorem drop_drop_eq (data : List UInt8) (offset limit : Nat) :
    (data.drop offset).drop limit =
      data.drop (offset + ((data.drop offset).take limit).length) := by
  rw [List.drop_drop, List.length_take, List.length_drop]
  rcases Nat.le_total limit (data.length - offset) with henough | hfew
  · rw [Nat.min_eq_left henough]
  · rw [Nat.min_eq_right hfew, List.drop_of_length_le (by omega), List.drop_of_length_le (by omega)]

/-- Only a piece that ends with the bytes is shorter than its given length. -/
theorem pieces_short {data : List UInt8} {limits : List Nat} {n limit : Nat}
    {piece : List UInt8} (hpiece : (pieces data limits)[n]? = some piece)
    (hlimit : limits[n]? = some limit) :
    piece.length = limit ∨
      piece.length < limit ∧ ((pieces data limits).take (n + 1)).flatten = data := by
  induction limits generalizing data n with
  | nil => cases hlimit
  | cons first rest ih =>
      cases n with
      | zero =>
          cases hpiece
          cases hlimit
          rw [List.length_take]
          rcases Nat.le_total limit data.length with henough | hfew
          · exact .inl (Nat.min_eq_left henough)
          · by_cases hall : data.length = limit
            · exact .inl (by omega)
            · refine .inr ⟨by omega, ?_⟩
              simp [pieces, List.take_of_length_le hfew]
      | succ n =>
          refine (ih hpiece hlimit).imp id fun ⟨hshort, hend⟩ => ⟨hshort, ?_⟩
          rw [pieces, List.take_succ_cons, List.flatten_cons, hend, List.take_append_drop]

/-! ## Calls that write and read -/

/-- A string in a mode that opens a file and empties it. -/
def Empties (mode : List UInt8) : Prop :=
  ∃ parsed, OpenMode.parse (Text.ofBytes (Text.beforeNul mode)) = some parsed ∧ parsed.empties

/-- A string in a mode that opens a file for reading, as it is. -/
def Reads (mode : List UInt8) : Prop :=
  ∃ parsed, OpenMode.parse (Text.ofBytes (Text.beforeNul mode)) = some parsed ∧
    parsed.reads ∧ parsed.empties = false

/-- Two strings are paths to the same place on the disk. -/
def Disk.SamePlace (disk : Disk) (path again : List UInt8) : Prop :=
  disk.locate (Text.ofBytes (Text.beforeNul again)) =
    disk.locate (Text.ofBytes (Text.beforeNul path))

/-- A value that was read, with its type: an array of characters with just the bytes. -/
structure IsArrayOf (types : TypeStore) (result : TypeId × Value) (bytes : List UInt8) :
    Prop where
  value : result.2 = .buffer bytes
  shape : types.shape result.1 = .ok (.array ⟨.char, bytes.length, bytes.length⟩)

/-- Symbols for the members that open, write and read files. -/
structure FileMembers (env : Environment) where
  /-- The member that a file is opened with for writing. -/
  opener : SymbolRef
  /-- The member that a file is opened with for reading. -/
  reopener : SymbolRef
  /-- The member that writes. -/
  writer : SymbolRef
  /-- The member that reads. -/
  reader : SymbolRef
  opens : Machine.Opens env opener
  reopens : Machine.Opens env reopener
  writes : Machine.NamesMember env writer .write
  reads : Machine.NamesMember env reader .read

namespace FileMembers

variable {env : Environment} (members : FileMembers env) (receiver : TypeId) (id : StreamId)

/-- Write all bytes of an array, as items of one byte. -/
def writeWhole (bytes : List UInt8) : Exec Value := do
  let (_, written) ← Machine.callOn env members.writer receiver
    [.stream id, .buffer bytes, .int 1, .int (Int32.ofNat bytes.length)]
  return written

/-- Read a number of items of a size, both of which are asked for. -/
def readItems (asked : Int32 × Int32) : Exec (TypeId × Value) :=
  Machine.callOn env members.reader receiver [.stream id, .int asked.1, .int asked.2]

end FileMembers

/-- The number of bytes that is asked for. -/
def bytesAsked (asked : Int32 × Int32) : Nat :=
  Machine.byteCount asked.1 asked.2

namespace Machine

theorem mapM_cons_eq {α β : Type} {work : α → Exec β} {first : α} {rest : List α} {answer : β}
    {answers : List β} {machine here last : Machine}
    (hfirst : work first machine = .ok answer here)
    (hrest : rest.mapM work here = .ok answers last) :
    (first :: rest).mapM work machine = .ok (answer :: answers) last := by
  rw [List.mapM_cons]
  simp only [bind, EStateM.bind, hfirst, hrest]
  rfl

variable {env : Environment} (members : FileMembers env) (receiver : TypeId)
  (machine : Machine) {id : StreamId} {path : Path} {mode : OpenMode} {data : List UInt8}

/-- Arrays that are written one after the other are added to the file. -/
theorem mapM_writeWhole (hwrites : mode.writes) {buffers : List (List UInt8)}
    (hbuffers : ∀ bytes ∈ buffers, bytes.length ≤ greatestInt)
    (hholds : machine.channels.Holds id path mode data.length data) :
    ∃ channels,
      buffers.mapM (members.writeWhole receiver id) machine =
        .ok (buffers.map fun bytes => .int (Int32.ofNat bytes.length)) { machine with channels } ∧
      channels.Holds id path mode (data ++ buffers.flatten).length (data ++ buffers.flatten) ∧
      channels.disk.locate = machine.channels.disk.locate := by
  induction buffers generalizing machine data with
  | nil => exact ⟨machine.channels, rfl, by rwa [List.flatten_nil, List.append_nil], rfl⟩
  | cons bytes rest ih =>
      obtain ⟨hbytes, hrest⟩ := List.forall_mem_cons.mp hbuffers
      obtain ⟨type, channels, hcall, hadded, hlocate⟩ :=
        callOn_write receiver members.writes hwrites hholds hbytes
      obtain ⟨last, hothers, hall, hkept⟩ := ih { machine with channels } hrest hadded
      have hfirst : members.writeWhole receiver id bytes machine =
          .ok (.int (Int32.ofNat bytes.length)) { machine with channels } := by
        simp only [FileMembers.writeWhole, bind, EStateM.bind, hcall]
        rfl
      refine ⟨last, mapM_cons_eq hfirst hothers, ?_, hkept.trans hlocate⟩
      rw [List.flatten_cons, ← List.append_assoc]
      exact hall

/-- What is read one after the other are the bytes from the place of the file on, cut as it
was asked for. -/
theorem mapM_readItems (hreads : mode.reads) {offset : Nat} (asks : List (Int32 × Int32))
    (htypes : machine.types.Reachable)
    (hholds : machine.channels.Holds id path mode offset data) :
    ∃ results last, asks.mapM (members.readItems receiver id) machine = .ok results last ∧
      List.Forall₂ (IsArrayOf last.types) results
        (pieces (data.drop offset) (asks.map bytesAsked)) ∧
      ∀ type shape, machine.types.shape type = .ok shape → last.types.shape type = .ok shape := by
  induction asks generalizing machine offset with
  | nil => exact ⟨[], machine, rfl, .nil, fun _ _ hshape => hshape⟩
  | cons asked rest ih =>
      obtain ⟨type, channels, types, hcall, hmoved, hmade⟩ :=
        callOn_read receiver members.reads hreads hholds htypes
      obtain ⟨inner, -, rfl, rfl⟩ := TypeStore.array_eq_ok hmade
      obtain ⟨results, last, hothers, hpieces, hkept⟩ :=
        ih { machine with channels, types := _ } (htypes.array hmade) hmoved
      refine ⟨_, last, mapM_cons_eq hcall hothers, .cons ⟨rfl, ?_⟩ ?_, fun type shape hshape => ?_⟩
      · exact hkept _ _ TypeStore.shape_allocate_self
      · rw [bytesAsked, drop_drop_eq]
        exact hpieces
      · exact hkept type shape (TypeStore.shape_allocate hshape)

/-- What is written to a file is read back. Once a file has been opened in a mode that
empties it, every array that is written whole is answered by its length. Once the file has
then been opened again for reading, every read goes through. What the reads answer are
arrays of characters with as many elements as they have bytes; together these bytes are the
first ones of all that was written, as many as were asked for, and a read answers fewer
bytes than it was asked for only at the end of all that was written. -/
theorem reads_what_was_written (opened : Machine) {path openMode : List UInt8} {type : TypeId}
    {buffers : List (List UInt8)} (htypes : machine.types.Reachable)
    (hempties : Empties openMode)
    (hopened : callOn env members.opener receiver
      [.stream id, .buffer path, .buffer openMode] machine = .ok (type, .bool true) opened)
    (hbuffers : ∀ bytes ∈ buffers, bytes.length ≤ greatestInt) :
    ∃ written, buffers.mapM (members.writeWhole receiver id) opened =
        .ok (buffers.map fun bytes => .int (Int32.ofNat bytes.length)) written ∧
      ∀ (again readMode : List UInt8) (type : TypeId) (reopened : Machine)
        (asks : List (Int32 × Int32)),
        written.channels.disk.SamePlace path again → Reads readMode →
        callOn env members.reopener receiver
          [.stream id, .buffer again, .buffer readMode] written =
            .ok (type, .bool true) reopened →
        ∃ (results : List (TypeId × Value)) (last : Machine) (arrays : List (List UInt8)),
          asks.mapM (members.readItems receiver id) reopened =
            .ok results last ∧
          List.Forall₂ (IsArrayOf last.types) results arrays ∧
          arrays.flatten = buffers.flatten.take (asks.map bytesAsked).sum ∧
          ∀ n (array : List UInt8) asked, arrays[n]? = some array → asks[n]? = some asked →
            array.length = bytesAsked asked ∨
              array.length < bytesAsked asked ∧
                (arrays.take (n + 1)).flatten = buffers.flatten := by
  obtain ⟨mode, hmode, hemptied⟩ := hempties
  obtain ⟨before, hdisk, channels, hopenFile, rfl⟩ := openFile_of_callOn members.opens hopened
  obtain ⟨found, hempty, hfound⟩ :=
    Channels.holds_of_openFile_empties hmode hemptied hopenFile
  have hstart : channels.Holds id found mode ([] : List UInt8).length [] := hempty
  obtain ⟨after, hwritten, hholds, hlocate⟩ := mapM_writeWhole members receiver
    { machine with channels } (Channels.writes_of_empties hmode hemptied) hbuffers hstart
  refine ⟨_, hwritten, ?_⟩
  intro again readMode type reopened asks hsame hreads hreopened
  obtain ⟨readAs, hreadMode, hreadable, hkeeps⟩ := hreads
  obtain ⟨closed, hclosed, last, hreopenFile, rfl⟩ :=
    openFile_of_callOn members.reopens hreopened
  have hplace : closed.disk.locate (Text.ofBytes (Text.beforeNul again)) =
      some (.file found) := by
    rw [hclosed, hsame, hlocate, hfound]
  have hheld := Channels.holds_of_openFile_keeps hreadMode hkeeps hplace
    (by rw [hclosed]; exact hholds.held) hreopenFile
  obtain ⟨results, final, hread, hpieces, -⟩ := mapM_readItems members receiver
    { machine with channels := last } hreadable asks htypes hheld
  refine ⟨results, final, _, hread, hpieces, flatten_pieces _ _, ?_⟩
  intro n array asked harray hasked
  exact pieces_short harray (by rw [List.getElem?_map, hasked, Option.map_some])

/-- A session with the members that files are worked on with. -/
def filing : Environment where
  scopes := ⟨#[
    { index := ⟨0⟩
      symbols := #[
        { name := "open", home := ⟨0⟩, type := some .bool
          defn := .routine .function { code := .native .open } },
        { name := "reopen", home := ⟨0⟩, type := some .bool
          defn := .routine .function { code := .native .reopen } },
        { name := "write", home := ⟨0⟩, type := some .int
          defn := .routine .function { code := .native .write } },
        { name := "read", home := ⟨0⟩, type := some .int
          defn := .routine .function { code := .native .read } }]
      names := .node .leaf "open" ⟨0⟩
        (.node (.node .leaf "read" ⟨3⟩ .leaf) "reopen" ⟨1⟩ (.node .leaf "write" ⟨2⟩ .leaf))
      order := some #[⟨0⟩, ⟨2⟩, ⟨3⟩, ⟨1⟩]
      ranks := #[some ⟨0⟩, some ⟨3⟩, some ⟨1⟩, some ⟨2⟩] }]⟩
  settings := {}

/-- Its members. -/
def filingMembers : FileMembers filing where
  opener := ⟨⟨0⟩, ⟨0⟩⟩
  reopener := ⟨⟨0⟩, ⟨1⟩⟩
  writer := ⟨⟨0⟩, ⟨2⟩⟩
  reader := ⟨⟨0⟩, ⟨3⟩⟩
  opens := .inl ⟨_, _, _, rfl, rfl, rfl⟩
  reopens := .inr ⟨_, _, _, rfl, rfl, rfl⟩
  writes := ⟨_, _, _, rfl, rfl, rfl⟩
  reads := ⟨_, _, _, rfl, rfl, rfl⟩

/-- The mode of a file that is opened to be written from the start. -/
def emptying : OpenMode :=
  { reads := false, writes := true, creates := true, empties := true }

/-- The machine with the first slot bound to the file `f`. -/
def holding (mode : OpenMode) (offset : Nat) (bytes : List UInt8) : Machine where
  channels :=
    { slots := #[⟨.file ["f"] mode offset, 0⟩, ⟨.standardOutput, 0⟩, ⟨.standardError, 0⟩]
      disk := { files := [(["f"], bytes)] } }

/-- Two arrays are read back in three reads, of which one asks for no byte and the last one
for more than there are. -/
theorem reads_what_was_written_unevenly :
    ∃ (opened written reopened last : Machine) (results : List (TypeId × Value))
      (arrays : List (List UInt8)),
      callOn filing filingMembers.opener .stream
          [.stream ⟨0⟩, .buffer [0x66], .buffer [0x77]] {} = .ok (.bool, .bool true) opened ∧
      [[1, 2], [3, 4, 5]].mapM (filingMembers.writeWhole .stream ⟨0⟩) opened =
        .ok [.int 2, .int 3] written ∧
      callOn filing filingMembers.reopener .stream
          [.stream ⟨0⟩, .buffer [0x66], .buffer [0x72]] written =
        .ok (.bool, .bool true) reopened ∧
      [(1, 4), (-1, 7), (3, 9)].mapM (filingMembers.readItems .stream ⟨0⟩) reopened =
        .ok results last ∧
      List.Forall₂ (IsArrayOf last.types) results arrays ∧ arrays.flatten = [1, 2, 3, 4, 5] := by
  have hopened : callOn filing filingMembers.opener .stream
      [.stream ⟨0⟩, .buffer [0x66], .buffer [0x77]] {} =
      .ok (.bool, .bool true) (holding emptying 0 []) := by
    cbv
  have hempties : Empties [0x77] := ⟨_, rfl, rfl⟩
  have hreads : Reads [0x72] := ⟨_, rfl, rfl, rfl⟩
  have hshort : ∀ bytes ∈ [[1, 2], [3, 4, 5]], (bytes : List UInt8).length ≤ greatestInt := by
    decide
  obtain ⟨written, hwritten, hread⟩ := reads_what_was_written filingMembers .stream {} _
    .predefined hempties hopened hshort
  have hthere : written = holding emptying 5 [1, 2, 3, 4, 5] := by
    have hsame : [[1, 2], [3, 4, 5]].mapM (filingMembers.writeWhole .stream ⟨0⟩)
        (holding emptying 0 []) =
      .ok [.int 2, .int 3] (holding emptying 5 [1, 2, 3, 4, 5]) := by cbv
    cases hwritten.symm.trans hsame
    rfl
  have hreopened : callOn filing filingMembers.reopener .stream
      [.stream ⟨0⟩, .buffer [0x66], .buffer [0x72]] written =
      .ok (.bool, .bool true) (holding { reads := true, writes := false } 0 [1, 2, 3, 4, 5]) := by
    subst hthere
    cbv
  obtain ⟨results, last, arrays, hresults, harrays, hflat, -⟩ := hread [0x66] [0x72] _ _
    [(1, 4), (-1, 7), (3, 9)] rfl hreads hreopened
  exact ⟨_, _, _, last, results, arrays, hopened, hwritten, hreopened, hresults, harrays, hflat⟩

end Machine

end ScopeMachine
