/-
# Reading a text back from its bytes

The lenient reading of bytes gives back every text from its UTF-8 bytes. A character is
read from its leading byte, which says how many bytes follow and between which bounds the
first of them lies; the bytes of a character always lie within these bounds.
-/

import Mathlib.Tactic.IntervalCases
import ScopeMachine.Proofs.Text.ByteOrder

namespace ScopeMachine.Text

/-! ## Bytes -/

theorem ofNat_le_ofNat_iff {m n : Nat} (hm : m < 256) (hn : n < 256) :
    UInt8.ofNat m ≤ UInt8.ofNat n ↔ m ≤ n := by
  simp [UInt8.le_iff_toNat_le, Nat.mod_eq_of_lt, hm, hn]

theorem toNat_ofNat {n : Nat} (hn : n < 256) : (UInt8.ofNat n).toNat = n := by
  simp [Nat.mod_eq_of_lt, hn]

/-- A byte within the bounds adds its six bits. -/
theorem complete_cons {low high next : Nat} (bits count used : Nat) (rest : List UInt8)
    (hlow : low ≤ next) (hhigh : next ≤ high) (hbound : high < 256) :
    complete bits (UInt8.ofNat low) (UInt8.ofNat high) (count + 1) used
        (UInt8.ofNat next :: rest) =
      complete (bits * 64 + (next - 0x80)) 0x80 0xbf count (used + 1) rest := by
  have hnext : next < 256 := by omega
  have hwithin : UInt8.ofNat low ≤ UInt8.ofNat next ∧ UInt8.ofNat next ≤ UInt8.ofNat high := by
    rw [ofNat_le_ofNat_iff (by omega) hnext, ofNat_le_ofNat_iff hnext hbound]
    exact ⟨hlow, hhigh⟩
  rw [complete, if_pos hwithin, toNat_ofNat hnext]

/-- The bytes after the second one have no narrowed bounds. -/
theorem complete_continuation (bits count used : Nat) {digit : Nat} (rest : List UInt8)
    (hdigit : digit < 64) :
    complete bits 0x80 0xbf (count + 1) used (UInt8.ofNat (digit + 0x80) :: rest) =
      complete (bits * 64 + digit) 0x80 0xbf count (used + 1) rest := by
  have hlow : 0x80 ≤ digit + 0x80 := by omega
  have hhigh : digit + 0x80 ≤ 0xbf := by omega
  have hstep := complete_cons bits count used rest hlow hhigh (by decide)
  rwa [Nat.add_sub_cancel] at hstep

/-! ## Leading bytes -/

theorem lead?_two {digit : Nat} (hlow : 2 ≤ digit) (hhigh : digit < 32) :
    lead? (UInt8.ofNat (digit + 0xc0)) = some ⟨digit, 0x80, 0xbf, 1⟩ := by
  interval_cases digit <;> rfl

theorem lead?_three {digit : Nat} (hhigh : digit < 16) :
    lead? (UInt8.ofNat (digit + 0xe0)) =
      some ⟨digit, UInt8.ofNat (if digit = 0 then 0xa0 else 0x80),
        UInt8.ofNat (if digit = 13 then 0x9f else 0xbf), 2⟩ := by
  interval_cases digit <;> rfl

theorem lead?_four {digit : Nat} (hhigh : digit < 5) :
    lead? (UInt8.ofNat (digit + 0xf0)) =
      some ⟨digit, UInt8.ofNat (if digit = 0 then 0x90 else 0x80),
        UInt8.ofNat (if digit = 4 then 0x8f else 0xbf), 3⟩ := by
  interval_cases digit <;> rfl

/-! ## Characters and texts -/

theorem character_of_ascii {n : Nat} (hn : n < 0x80) (rest : List UInt8) :
    character (UInt8.ofNat n) rest = (Char.ofNat n, 0) := by
  have hascii : UInt8.ofNat n < 0x80 := (ofNat_lt_ofNat_iff (by omega) (by decide)).mpr hn
  rw [character, if_pos hascii, toNat_ofNat (by omega)]

theorem character_of_lead {n : Nat} {lead : Lead} (hlow : 0x80 ≤ n) (hhigh : n < 256)
    (hlead : lead? (UInt8.ofNat n) = some lead) (rest : List UInt8) :
    character (UInt8.ofNat n) rest =
      complete lead.bits lead.low lead.high lead.count 0 rest := by
  have hother : ¬ UInt8.ofNat n < 0x80 := by
    have hiff := ofNat_lt_ofNat_iff hhigh (by decide : 0x80 < 256)
    exact fun hless => absurd (hiff.mp hless) (by omega)
  rw [character, if_neg hother, hlead]

/-- A character is read from its own bytes, whatever comes after them. -/
theorem character_utf8EncodeChar (c : Char) (rest : List UInt8) :
    ∃ byte following, String.utf8EncodeChar c = byte :: following ∧
      character byte (following ++ rest) = (c, following.length) := by
  have hvalid : c.val.toNat < 0xd800 ∨ 0xdfff < c.val.toNat ∧ c.val.toNat < 0x110000 := c.valid
  have hnumber : Char.ofNat c.val.toNat = c := Char.ofNat_toNat c
  unfold String.utf8EncodeChar
  generalize c.val.toNat = n at *
  dsimp only
  split_ifs with hone htwo hthree
  · refine ⟨_, _, rfl, ?_⟩
    rw [character_of_ascii (by omega), hnumber]
    rfl
  · refine ⟨_, _, rfl, ?_⟩
    rw [character_of_lead (by omega) (by omega) (lead?_two (by omega) (by omega)),
      List.cons_append, complete_continuation _ _ _ _ (by omega), complete]
    have hdigits : n / 64 % 32 * 64 + n % 64 = n := by omega
    rw [hdigits, hnumber]
    rfl
  · refine ⟨_, _, rfl, ?_⟩
    have hsecond : (if n / 4096 % 16 = 0 then 0xa0 else 0x80) ≤ n / 64 % 64 + 0x80 ∧
        n / 64 % 64 + 0x80 ≤ (if n / 4096 % 16 = 13 then 0x9f else 0xbf) := by
      split_ifs <;> omega
    rw [character_of_lead (by omega) (by omega) (lead?_three (by omega)),
      List.cons_append, complete_cons _ _ _ _ hsecond.1 hsecond.2 (by split_ifs <;> omega),
      List.cons_append, complete_continuation _ _ _ _ (by omega), complete]
    have hdigits :
        (n / 4096 % 16 * 64 + (n / 64 % 64 + 0x80 - 0x80)) * 64 + n % 64 = n := by omega
    rw [hdigits, hnumber]
    rfl
  · refine ⟨_, _, rfl, ?_⟩
    have hsecond : (if n / 262144 % 8 = 0 then 0x90 else 0x80) ≤ n / 4096 % 64 + 0x80 ∧
        n / 4096 % 64 + 0x80 ≤ (if n / 262144 % 8 = 4 then 0x8f else 0xbf) := by
      split_ifs <;> omega
    rw [character_of_lead (by omega) (by omega) (lead?_four (by omega)),
      List.cons_append, complete_cons _ _ _ _ hsecond.1 hsecond.2 (by split_ifs <;> omega),
      List.cons_append, complete_continuation _ _ _ _ (by omega),
      List.cons_append, complete_continuation _ _ _ _ (by omega), complete]
    have hdigits : ((n / 262144 % 8 * 64 + (n / 4096 % 64 + 0x80 - 0x80)) * 64 +
        n / 64 % 64) * 64 + n % 64 = n := by omega
    rw [hdigits, hnumber]
    rfl

theorem decodeChars_flatMap (text : List Char) :
    decodeChars (text.flatMap String.utf8EncodeChar) = text := by
  induction text with
  | nil => rw [List.flatMap_nil, decodeChars]
  | cons c rest ih =>
      obtain ⟨byte, following, hbytes, hread⟩ :=
        character_utf8EncodeChar c (rest.flatMap String.utf8EncodeChar)
      rw [List.flatMap_cons, hbytes, List.cons_append, decodeChars, hread]
      dsimp only
      rw [List.drop_left, ih]

/-- A text is read back from its bytes. -/
@[simp]
theorem decode_encode (text : String) : decode (encode text) = text := by
  rw [decode, encode, decodeChars_flatMap, String.ofList_toList]

end ScopeMachine.Text
