/-
# The order of texts is the order of their bytes

Texts are compared by their code points. The bytes of a character grow with its
code point, and no character begins with all the bytes of another one, so texts
compare just as their UTF-8 bytes do.
-/

import Mathlib.Tactic.SplitIfs
import ScopeMachine.Text.Utf8

namespace ScopeMachine.Text

/-! ## Bytes -/

theorem ofNat_lt_ofNat_iff {m n : Nat} (hm : m < 256) (hn : n < 256) :
    UInt8.ofNat m < UInt8.ofNat n ↔ m < n := by
  simp [UInt8.lt_iff_toNat_lt, Nat.mod_eq_of_lt, hm, hn]

theorem ofNat_eq_ofNat_iff {m n : Nat} (hm : m < 256) (hn : n < 256) :
    UInt8.ofNat m = UInt8.ofNat n ↔ m = n := by
  simp [← UInt8.toNat_inj, Nat.mod_eq_of_lt, hm, hn]

/-! ## Characters and texts -/

/-- Two characters are told apart by their bytes, whatever bytes come after them. -/
theorem utf8EncodeChar_append_lt {first second : Char} (hless : first < second)
    (after later : List UInt8) :
    String.utf8EncodeChar first ++ after < String.utf8EncodeChar second ++ later := by
  have hvalue : first.val.toNat < second.val.toNat := hless
  have hbound : second.val.toNat < 0x110000 := by
    have hvalid := second.valid
    simp only [UInt32.isValidChar, Nat.isValidChar] at hvalid
    omega
  unfold String.utf8EncodeChar
  generalize first.val.toNat = m at *
  generalize second.val.toNat = n at *
  -- All bytes but the first are digits to the base 64.
  have hdigits (k : Nat) : k / 4096 = k / 64 / 64 ∧ k / 262144 = k / 64 / 64 / 64 := by omega
  simp only [hdigits]
  split_ifs <;>
    simp (disch := omega) only [List.cons_append, List.nil_append, List.cons_lt_cons_iff,
      ofNat_lt_ofNat_iff, ofNat_eq_ofNat_iff] <;>
    omega

theorem flatMap_utf8EncodeChar_lt {first second : List Char} (hless : first < second) :
    first.flatMap String.utf8EncodeChar < second.flatMap String.utf8EncodeChar := by
  induction hless with
  | @nil c rest =>
      have hbytes := List.length_pos_iff.mp (String.length_utf8EncodeChar c ▸ c.utf8Size_pos)
      obtain ⟨byte, others, hcons⟩ := List.exists_cons_of_ne_nil hbytes
      rw [List.flatMap_nil, List.flatMap_cons, hcons]
      exact List.nil_lt_cons _ _
  | cons hrest ih =>
      rw [List.flatMap_cons, List.flatMap_cons]
      exact List.append_left_lt ih
  | rel hless =>
      rw [List.flatMap_cons, List.flatMap_cons]
      exact utf8EncodeChar_append_lt hless _ _

theorem length_encode (text : String) : (encode text).length = text.utf8ByteSize := by
  obtain ⟨chars, rfl⟩ : ∃ chars, text = String.ofList chars :=
    ⟨text.toList, String.ofList_toList.symm⟩
  simp [encode, String.utf8ByteSize, List.utf8Encode]

/-- A text has no more characters than bytes. -/
theorem length_le_utf8ByteSize (text : String) : text.length ≤ text.utf8ByteSize := by
  rw [← length_encode, encode, ← String.length_toList]
  induction text.toList with
  | nil => exact Nat.le_refl 0
  | cons c rest ih =>
      have hbytes : 0 < (String.utf8EncodeChar c).length :=
        String.length_utf8EncodeChar c ▸ c.utf8Size_pos
      rw [List.flatMap_cons, List.length_append, List.length_cons]
      omega

/-- Texts compare as their bytes do. -/
theorem compare_eq_lt_iff_encode_lt {first second : String} :
    compare first second = .lt ↔ encode first < encode second := by
  have hencode {first second : String} (hless : compare first second = .lt) :
      encode first < encode second := by
    have horder : first < second := compareOfLessAndEq_eq_lt.mp hless
    exact flatMap_utf8EncodeChar_lt horder
  constructor
  · exact hencode
  · intro hbytes
    cases hcompare : compare first second with
    | lt => rfl
    | eq =>
        obtain rfl : first = second := Std.LawfulEqCmp.eq_of_compare hcompare
        exact absurd hbytes (List.lt_irrefl _)
    | gt =>
        have hgreater := hencode (Std.OrientedCmp.lt_of_gt hcompare)
        exact absurd hbytes (List.lt_asymm hgreater)

end ScopeMachine.Text
