/-
# Lines that are put into streams

A string is put into a stream as the text whose characters have the numbers of its bytes,
and a line break after it. All of this text arrives, so the bytes that arrive are those of
the string up to its first NUL only if these are ASCII; every other byte arrives as two. A
text that was pushed as UTF-8 bytes therefore arrives as itself if its characters are
ASCII, and as a different text otherwise.
-/

import ScopeMachine.Proofs.Members.Streams
import ScopeMachine.Proofs.Streams.Transfers
import ScopeMachine.Proofs.Text.Widening

namespace ScopeMachine

namespace Text

/-- The bytes that arrive for the bytes of a string, with a line break. -/
def widenedLine (bytes : List UInt8) : List UInt8 :=
  (beforeNul bytes).flatMap widened ++ [0x0a]

theorem widenedLine_ne_nil (bytes : List UInt8) : widenedLine bytes ≠ [] := by
  simp [widenedLine]

theorem encode_append (first second : String) :
    encode (first ++ second) = encode first ++ encode second := by
  simp [encode]

/-- The bytes of a line are read as the string and a line break. -/
theorem decode_widenedLine (bytes : List UInt8) :
    decode (widenedLine bytes) = ofBytes (beforeNul bytes) ++ "\n" := by
  have hbytes : widenedLine bytes = encode (ofBytes (beforeNul bytes) ++ "\n") := by
    rw [encode_append, encode_ofBytes]
    rfl
  rw [hbytes, decode_encode]

/-- The bytes of a string arrive as they are just if they are ASCII. -/
theorem widenedLine_eq_iff (bytes : List UInt8) :
    widenedLine bytes = beforeNul bytes ++ [0x0a] ↔ ∀ byte ∈ beforeNul bytes, byte < 0x80 := by
  rw [widenedLine, List.append_left_inj, flatMap_widened_eq_self_iff]

/-- A text arrives as its own bytes just if its characters are ASCII. -/
theorem widenedLine_encode_eq_iff {text : String} (hnul : '\x00' ∉ text.toList) :
    widenedLine (encode text) = encode text ++ [0x0a] ↔ ∀ c ∈ text.toList, c.toNat < 0x80 := by
  have hiff := widenedLine_eq_iff (encode text)
  rw [beforeNul_encode hnul] at hiff
  rw [hiff, encode_ascii_iff]

/-- A text is shown as itself just if its characters are ASCII. -/
theorem ofBytes_encode_eq_iff (text : String) :
    ofBytes (encode text) = text ↔ ∀ c ∈ text.toList, c.toNat < 0x80 := by
  rw [← encode_ascii_iff, ← flatMap_widened_eq_self_iff, ← encode_ofBytes]
  constructor
  · intro hsame
    rw [hsame]
  · intro hsame
    have hread := congrArg decode hsame
    rwa [decode_encode, decode_encode] at hread

end Text

/-- What a buffer is sent is added to its text. -/
theorem Sink.text_print {sink : Sink} (hbuffer : sink.destination = .buffer) (text : String) :
    (sink.print text).text = sink.text ++ text := by
  have htext : textOf [.written text] = text := by
    change String.join [text] = text
    rw [String.join_cons, String.join_nil, String.append_empty]
  rw [Sink.text, print, Sink.pieces_append hbuffer, Array.toList_push, textOf_append, htext,
    Sink.text]

namespace Machine

/-- A call of the member that puts a string into a stream open for writing answers that
all went well. What arrives are the bytes in front of the first NUL, each of them widened,
and a line break. So it is the bytes of the string just if all of them are ASCII, and the
bytes of a text without NUL just if all of its characters are; of what a buffer keeps for
standard output the same holds. -/
theorem call_puts_widens (env : Environment) (ref : SymbolRef) (receiver : TypeId)
    (machine : Machine) {bytes : List UInt8} {id : StreamId} {rest : List Value}
    (hputs : NamesMember env ref .puts)
    (hstack : machine.stack = .buffer bytes :: .stream id :: rest)
    (hwritable : machine.channels.Writable id) :
    ∃ type after, call env ref (some receiver) machine = .ok type after ∧
      after = { machine with stack := .bool true :: rest, channels := after.channels } ∧
      Channels.Receives id (Text.widenedLine bytes) machine.channels after.channels ∧
      (Text.widenedLine bytes = Text.beforeNul bytes ++ [0x0a] ↔
        ∀ byte ∈ Text.beforeNul bytes, byte < 0x80) ∧
      (∀ orientation, machine.channels.slot? id = some ⟨.standardOutput, orientation⟩ →
        machine.channels.sink.destination = .buffer →
        after.channels.sink.text =
          machine.channels.sink.text ++ (Text.ofBytes (Text.beforeNul bytes) ++ "\n")) ∧
      ∀ text, '\x00' ∉ text.toList → bytes = Text.encode text →
        (Text.widenedLine bytes = Text.encode text ++ [0x0a] ↔
          ∀ c ∈ text.toList, c.toNat < 0x80) ∧
        (Text.ofBytes (Text.beforeNul bytes) = text ↔ ∀ c ∈ text.toList, c.toNat < 0x80) := by
  obtain ⟨declared, hcall⟩ := exists_call_eq hputs
  obtain ⟨channels, hwrite, hreceives⟩ :=
    Channels.write_of_writable hwritable (Text.widenedLine_ne_nil bytes)
  have hline : Text.encode (Text.ofBytes (Text.beforeNul bytes)) ++ [0x0a] =
      Text.widenedLine bytes := by
    rw [Text.encode_ofBytes, Text.widenedLine]
  have hmember : putsMember machine =
      .ok () { machine with stack := .bool true :: rest, channels } := by
    rw [putsMember_eq hstack hwritable.contains]
    simp [hline, hwrite]
  refine ⟨declared, { machine with stack := .bool true :: rest, channels }, ?_, rfl, hreceives,
    Text.widenedLine_eq_iff bytes, ?_, ?_⟩
  · rw [hcall]
    simp only [callMember, bind, EStateM.bind, hmember]
    rfl
  · intro orientation hslot hbuffer
    cases hreceives with
    | standardOutput =>
        rw [Sink.write, Sink.text_print hbuffer, Text.decode_widenedLine]
    | standardError hother => simp [hslot] at hother
    | file hother => simp [hslot] at hother
  · rintro text hnul rfl
    rw [Text.widenedLine_encode_eq_iff hnul, Text.beforeNul_encode hnul,
      Text.ofBytes_encode_eq_iff]
    exact ⟨Iff.rfl, Iff.rfl⟩

/-- A session with the member that puts strings into streams, in a scope of its own. -/
def printing : Environment where
  scopes := ⟨#[
    { index := ⟨0⟩
      symbols := #[
        { name := "puts", home := ⟨0⟩, type := some .bool
          defn := .routine .function { code := .native .puts } }]
      names := .node .leaf "puts" ⟨0⟩ .leaf
      order := some #[⟨0⟩]
      ranks := #[some ⟨0⟩] }]⟩
  settings := {}

/-- A text of one character that is not ASCII is shown as two. -/
theorem call_puts_widens_accented :
    ∃ type after, call printing ⟨⟨0⟩, ⟨0⟩⟩ (some .stream)
        { stack := [.buffer (Text.encode "é"), .stream .standardOutput] } = .ok type after ∧
      after.stack = [.bool true] ∧ after.channels.sink.text = "Ã©\n" ∧ "Ã©" ≠ "é" := by
  have hputs : NamesMember printing ⟨⟨0⟩, ⟨0⟩⟩ .puts := ⟨_, _, _, rfl, rfl, rfl⟩
  have hwritable : Channels.Writable {} .standardOutput := ⟨_, rfl, .inl rfl⟩
  obtain ⟨type, after, hcall, hafter, -, -, hshown, -⟩ :=
    call_puts_widens printing ⟨⟨0⟩, ⟨0⟩⟩ .stream
      { stack := [.buffer (Text.encode "é"), .stream .standardOutput] } hputs rfl hwritable
  have hstack : after.stack = [.bool true] := by rw [hafter]
  refine ⟨type, after, hcall, hstack, ?_, by decide⟩
  rw [hshown 0 rfl rfl]
  decide

end Machine

end ScopeMachine
