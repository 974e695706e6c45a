/-
# Bytes that are written as characters

A byte that is taken for the character of the same number is written as the UTF-8 bytes of
this character. An ASCII byte stays what it is, and any other byte becomes two, so what is
written are the bytes themselves only as long as all of them are ASCII. The bytes of a text
are ASCII just if its characters are.
-/

import Mathlib.Data.List.Basic
import Mathlib.Data.List.TakeWhile
import ScopeMachine.Proofs.Text.RoundTrip
import ScopeMachine.Text.Basic

namespace ScopeMachine.Text

/-- The UTF-8 bytes of the character with the number of `byte`. -/
def widened (byte : UInt8) : List UInt8 :=
  if byte < 0x80 then [byte] else [0xc0 + byte / 64, 0x80 + byte % 64]

theorem length_widened (byte : UInt8) :
    (widened byte).length = if byte < 0x80 then 1 else 2 := by
  unfold widened
  split <;> rfl

theorem toNat_charOfByte (byte : UInt8) : (charOfByte byte).val.toNat = byte.toNat := by
  have hbyte : byte.toNat < 256 := byte.toNat_lt
  have hvalid : byte.toNat.isValidChar := Or.inl (by omega)
  rw [charOfByte, Char.ofNat, dif_pos hvalid]
  rfl

theorem utf8EncodeChar_charOfByte (byte : UInt8) :
    String.utf8EncodeChar (charOfByte byte) = widened byte := by
  have hbyte : byte.toNat < 256 := byte.toNat_lt
  unfold String.utf8EncodeChar widened
  rw [toNat_charOfByte]
  by_cases hascii : byte < 0x80
  · have hone : byte.toNat ≤ 127 := Nat.le_of_lt_succ hascii
    rw [if_pos hascii]
    simp [hone]
  · have hone : ¬ byte.toNat ≤ 127 := fun h => hascii (Nat.lt_succ_of_le h)
    have htwo : byte.toNat ≤ 2047 := by omega
    rw [if_neg hascii]
    simp only [hone, htwo, if_true, if_false, List.cons.injEq, ← UInt8.toNat_inj]
    simp
    omega

/-- Bytes taken for characters are written with every byte widened. -/
theorem encode_ofBytes (bytes : List UInt8) :
    encode (ofBytes bytes) = bytes.flatMap widened := by
  rw [encode, ofBytes, String.toList_ofList, List.flatMap_map]
  exact List.flatMap_congr fun byte _ => utf8EncodeChar_charOfByte byte

theorem length_le_flatMap_widened (bytes : List UInt8) :
    bytes.length ≤ (bytes.flatMap widened).length := by
  induction bytes with
  | nil => exact Nat.le_refl 0
  | cons byte rest ih =>
      have hbyte : 1 ≤ (widened byte).length := by
        rw [length_widened]
        split <;> decide
      rw [List.flatMap_cons, List.length_append, List.length_cons]
      omega

/-- Widening keeps ASCII bytes and changes everything else. -/
theorem flatMap_widened_eq_self_iff (bytes : List UInt8) :
    bytes.flatMap widened = bytes ↔ ∀ byte ∈ bytes, byte < 0x80 := by
  induction bytes with
  | nil => simp
  | cons byte rest ih =>
      rw [List.flatMap_cons, List.forall_mem_cons]
      by_cases hascii : byte < 0x80
      · simp [widened, hascii, ih]
      · -- The widened bytes are more than there were.
        have hlonger := length_le_flatMap_widened rest
        have hbyte : (widened byte).length = 2 := by rw [length_widened, if_neg hascii]
        refine iff_of_false (fun heq => ?_) fun h => hascii h.1
        have hlength := congrArg List.length heq
        rw [List.length_append, List.length_cons] at hlength
        omega

/-! ## Bytes of texts -/

/-- The bytes of a character other than an ASCII one are no ASCII bytes. -/
theorem le_of_mem_utf8EncodeChar {c : Char} {byte : UInt8} (hc : 0x80 ≤ c.toNat)
    (hbyte : byte ∈ String.utf8EncodeChar c) : 0x80 ≤ byte := by
  have hvalue : ¬ c.val.toNat ≤ 127 := Nat.not_le_of_gt hc
  unfold String.utf8EncodeChar at hbyte
  simp only [hvalue, if_false] at hbyte
  have hdigit (n base : Nat) (hbase : 0x80 ≤ base) (hsum : n + base < 256) :
      0x80 ≤ UInt8.ofNat (n + base) := by
    have hiff := ofNat_le_ofNat_iff (by decide : 0x80 < 256) hsum
    exact hiff.mpr (by omega)
  split_ifs at hbyte <;> simp only [List.mem_cons, List.not_mem_nil, or_false] at hbyte
  all_goals
    rcases hbyte with rfl | rfl | rfl | rfl <;> exact hdigit _ _ (by decide) (by omega)

theorem utf8EncodeChar_of_ascii {c : Char} (hc : c.toNat < 0x80) :
    String.utf8EncodeChar c = [UInt8.ofNat c.toNat] := by
  have hvalue : c.val.toNat ≤ 127 := Nat.le_of_lt_succ hc
  unfold String.utf8EncodeChar
  rw [if_pos hvalue]
  rfl

/-- The bytes of a text are ASCII just if its characters are. -/
theorem encode_ascii_iff (text : String) :
    (∀ byte ∈ encode text, byte < 0x80) ↔ ∀ c ∈ text.toList, c.toNat < 0x80 := by
  constructor
  · intro hbytes c hc
    refine Nat.lt_of_not_le fun hother => ?_
    obtain ⟨byte, following, hcons, -⟩ := character_utf8EncodeChar c []
    have hbyte : byte ∈ String.utf8EncodeChar c := hcons ▸ List.mem_cons_self
    have hless := hbytes byte (List.mem_flatMap.mpr ⟨c, hc, hbyte⟩)
    exact UInt8.not_le.mpr hless (le_of_mem_utf8EncodeChar hother hbyte)
  · intro hchars byte hbyte
    obtain ⟨c, hc, hmem⟩ := List.mem_flatMap.mp hbyte
    have hascii := hchars c hc
    rw [utf8EncodeChar_of_ascii hascii, List.mem_singleton] at hmem
    rw [hmem]
    exact (ofNat_lt_ofNat_iff (by omega) (by decide)).mpr hascii

/-- A text is cut off at the first NUL, and at nothing else. -/
theorem exists_beforeNul_append (bytes : List UInt8) :
    ∃ cut, bytes = beforeNul bytes ++ cut ∧ 0 ∉ beforeNul bytes ∧
      ∀ byte ∈ cut.head?, byte = 0 := by
  refine ⟨bytes.dropWhile (· != 0), List.takeWhile_append_dropWhile.symm, ?_, ?_⟩
  · intro hmem
    have hnonzero := List.mem_takeWhile_imp hmem
    simp at hnonzero
  · intro byte hbyte
    have hfirst := List.head?_dropWhile_not (· != 0) bytes
    rw [hbyte] at hfirst
    simpa using hfirst

/-- A text without NUL has no NUL among its bytes. -/
theorem beforeNul_encode {text : String} (hnul : '\x00' ∉ text.toList) :
    beforeNul (encode text) = encode text := by
  refine List.takeWhile_eq_self_iff.mpr fun byte hbyte => ?_
  obtain ⟨c, hc, hmem⟩ := List.mem_flatMap.mp hbyte
  rw [bne_iff_ne]
  rintro rfl
  by_cases hascii : c.toNat < 0x80
  · rw [utf8EncodeChar_of_ascii hascii, List.mem_singleton] at hmem
    have hzero : 0 = c.toNat := (ofNat_eq_ofNat_iff (by decide) (by omega)).mp hmem
    have hsame : c = '\x00' := by
      rw [← Char.ofNat_toNat c, ← hzero]
    exact hnul (hsame ▸ hc)
  · exact absurd (le_of_mem_utf8EncodeChar (Nat.le_of_not_lt hascii) hmem) (by decide)

end ScopeMachine.Text
