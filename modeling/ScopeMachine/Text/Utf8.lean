/-
# UTF-8 text and bytes

Texts are written as UTF-8. Bytes of unknown origin are read back leniently:
each maximal stretch that begins a sequence but cannot be completed stands for
one replacement character, and so does every byte that begins no sequence.
-/

namespace ScopeMachine.Text

/-- The UTF-8 bytes of a text. -/
def encode (text : String) : List UInt8 :=
  text.toList.flatMap String.utf8EncodeChar

/-- What stands for bytes that are not UTF-8. -/
def replacement : Char :=
  Char.ofNat 0xfffd

/-- What a leading byte announces: the bits it contributes, the range of the
byte that must follow, and how many bytes follow in all. The narrowed ranges
keep out overlong forms, surrogates and values above the last code point. -/
structure Lead where
  /-- The bits of the leading byte that belong to the code point. -/
  bits : Nat
  /-- The least byte that may follow. -/
  low : UInt8
  /-- The greatest byte that may follow. -/
  high : UInt8
  /-- How many bytes follow. -/
  count : Nat

/-- Reading of a byte that is not ASCII as the start of a sequence. -/
def lead? (byte : UInt8) : Option Lead :=
  if 0xc2 ≤ byte ∧ byte ≤ 0xdf then some ⟨byte.toNat - 0xc0, 0x80, 0xbf, 1⟩
  else if byte = 0xe0 then some ⟨0, 0xa0, 0xbf, 2⟩
  else if byte = 0xed then some ⟨13, 0x80, 0x9f, 2⟩
  else if 0xe1 ≤ byte ∧ byte ≤ 0xef then some ⟨byte.toNat - 0xe0, 0x80, 0xbf, 2⟩
  else if byte = 0xf0 then some ⟨0, 0x90, 0xbf, 3⟩
  else if 0xf1 ≤ byte ∧ byte ≤ 0xf3 then some ⟨byte.toNat - 0xf0, 0x80, 0xbf, 3⟩
  else if byte = 0xf4 then some ⟨4, 0x80, 0x8f, 3⟩
  else none

/-- Complete a sequence that has gathered `bits` from `used` following bytes
and still wants `count` more, the next one between `low` and `high`. Answers
the character and how many following bytes belong to it. -/
def complete (bits : Nat) (low high : UInt8) : (count used : Nat) → List UInt8 → Char × Nat
  | 0, used, _ => (Char.ofNat bits, used)
  | _ + 1, used, [] => (replacement, used)
  | count + 1, used, byte :: rest =>
    if low ≤ byte ∧ byte ≤ high then
      complete (bits * 64 + (byte.toNat - 0x80)) 0x80 0xbf count (used + 1) rest
    else (replacement, used)

/-- The character that starts with `byte`, and how many bytes of `rest` it takes. -/
def character (byte : UInt8) (rest : List UInt8) : Char × Nat :=
  if byte < 0x80 then (Char.ofNat byte.toNat, 0)
  else
    match lead? byte with
    | none => (replacement, 0)
    | some lead => complete lead.bits lead.low lead.high lead.count 0 rest

/-- Read bytes as UTF-8, with a replacement character for each maximal stretch
that is not. -/
def decodeChars : List UInt8 → List Char
  | [] => []
  | byte :: rest =>
    let (c, used) := character byte rest
    c :: decodeChars (rest.drop used)
termination_by bytes => bytes.length
decreasing_by
  simp only [List.length_drop, List.length_cons]
  omega

/-- Lenient reading of bytes as a text. -/
def decode (bytes : List UInt8) : String :=
  String.ofList (decodeChars bytes)

end ScopeMachine.Text
