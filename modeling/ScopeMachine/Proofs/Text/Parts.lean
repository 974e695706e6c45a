/-
# Parts of a text and the words in them

A list is written as parts with a separator between them. The text determines its parts:
they hold no separator, and with separators between them they are the text again. In a part
stands a word between blanks. The part determines its word as well, since the word has no
blank at its own ends.
-/

import Mathlib.Data.List.DropRight
import ScopeMachine.Text.Basic

namespace ScopeMachine.Text

variable {separator : Char} {text word : List Char} {parts : List (List Char)}

/-! ## Parts between separators -/

/-- The parts hold no separator, and the text is the parts with separators between them. -/
structure Divides (separator : Char) (text : List Char) (parts : List (List Char)) : Prop where
  joined : [separator].intercalate parts = text
  plain : ∀ part ∈ parts, separator ∉ part
  ne_nil : parts ≠ []

theorem fields_eq_splitOn (separator : Char) (text : List Char) :
    fields separator text = text.splitOn separator := by
  induction text with
  | nil => rfl
  | cons c rest ih =>
      rw [fields, ih, List.splitOn_cons_eq_if_modifyHead]
      simp only [beq_iff_eq]
      split
      · rfl
      · cases hsplit : rest.splitOn separator with
        | nil => exact absurd hsplit (List.splitOn_ne_nil separator rest)
        | cons field others => rfl

theorem not_mem_of_mem_fields {part : List Char} (hpart : part ∈ fields separator text) :
    separator ∉ part := by
  induction text generalizing part with
  | nil =>
      rw [fields, List.mem_singleton] at hpart
      rw [hpart]
      exact List.not_mem_nil
  | cons c rest ih =>
      rw [fields] at hpart
      split at hpart
      · rcases List.mem_cons.mp hpart with rfl | hlater
        · exact List.not_mem_nil
        · exact ih hlater
      · rename_i hother
        cases hfields : fields separator rest with
        | nil => exact absurd hfields (fields_ne_nil separator rest)
        | cons field others =>
            rw [hfields] at hpart ih
            rcases List.mem_cons.mp hpart with rfl | hlater
            · exact List.not_mem_cons_of_ne_of_not_mem (Ne.symm hother)
                (ih List.mem_cons_self)
            · exact ih (List.mem_cons_of_mem _ hlater)

/-- The fields of a text are the only parts that it divides into. -/
theorem fields_eq_iff : fields separator text = parts ↔ Divides separator text parts := by
  constructor
  · rintro rfl
    refine ⟨?_, fun _ => not_mem_of_mem_fields, fields_ne_nil separator text⟩
    rw [fields_eq_splitOn, List.intercalate_splitOn]
  · rintro ⟨rfl, hplain, hne⟩
    rw [fields_eq_splitOn, List.splitOn_intercalate separator hplain hne]

/-! ## Words between blanks -/

/-- The text is the word with blanks around it. The word may be empty, and neither begins
nor ends with a blank. -/
structure Padded (word text : List Char) : Prop where
  around : ∃ before after, text = before ++ word ++ after ∧
    ∀ c ∈ before ++ after, isBlank c = true
  first : ∀ c ∈ word.head?, isBlank c = false
  last : ∀ c ∈ word.getLast?, isBlank c = false

theorem trimEnd_eq (text : List Char) : trimEnd text = text.rdropWhile isBlank := rfl

theorem dropWhile_isBlank_append {before : List Char} (hbefore : ∀ c ∈ before, isBlank c = true)
    (hword : ∀ c ∈ word.head?, isBlank c = false) :
    (before ++ word).dropWhile isBlank = word := by
  rw [List.dropWhile_append_of_pos hbefore]
  cases word with
  | nil => rfl
  | cons c rest => rw [List.dropWhile_cons_of_neg (by simp [hword c rfl])]

theorem trimEnd_append {after : List Char} (hafter : ∀ c ∈ after, isBlank c = true)
    (hword : ∀ c ∈ word.getLast?, isBlank c = false) : trimEnd (word ++ after) = word := by
  rw [trimEnd, List.reverse_append, dropWhile_isBlank_append, List.reverse_reverse]
  · intro c hc
    exact hafter c (List.mem_reverse.mp hc)
  · rwa [List.head?_reverse]

theorem padded_trim (text : List Char) : Padded (trim text) text where
  around := by
    refine ⟨text.takeWhile isBlank, (text.dropWhile isBlank).rtakeWhile isBlank, ?_, ?_⟩
    · rw [trim, trimEnd_eq, List.append_assoc, List.rdropWhile_append_rtakeWhile,
        List.takeWhile_append_dropWhile]
    · intro c hc
      rcases List.mem_append.mp hc with hfront | hback
      · exact List.mem_takeWhile_imp hfront
      · exact List.mem_rtakeWhile_imp hback
  first := by
    intro c hc
    -- What is left begins like the text without its blanks in front.
    have hfront : (text.dropWhile isBlank).head? = some c := by
      obtain ⟨rest, hrest⟩ := List.rdropWhile_prefix isBlank (text.dropWhile isBlank)
      have hkept : ((text.dropWhile isBlank).rdropWhile isBlank).head? = some c := hc
      rw [← hrest, List.head?_append, hkept, Option.some_or]
    have hnot := List.head?_dropWhile_not isBlank text
    rw [hfront] at hnot
    exact hnot
  last := by
    intro c hc
    have hne : (text.dropWhile isBlank).rdropWhile isBlank ≠ [] := fun hnil => by
      rw [trim, trimEnd_eq, hnil] at hc
      cases hc
    rw [trim, trimEnd_eq, List.getLast?_eq_some_getLast hne, Option.mem_some_iff] at hc
    rw [← hc]
    exact Bool.eq_false_iff.mpr (List.rdropWhile_last_not isBlank _ hne)

/-- Trimming a text leaves the one word that the text is with blanks around it. -/
theorem trim_eq_iff : trim text = word ↔ Padded word text := by
  constructor
  · rintro rfl
    exact padded_trim text
  · rintro ⟨⟨before, after, rfl, hblank⟩, hfirst, hlast⟩
    have hbefore : ∀ c ∈ before, isBlank c = true := fun c hc =>
      hblank c (List.mem_append_left _ hc)
    have hafter : ∀ c ∈ after, isBlank c = true := fun c hc =>
      hblank c (List.mem_append_right _ hc)
    cases word with
    | nil =>
        -- Nothing but blanks, so what is behind the empty word goes with what is before it.
        rw [trim, List.append_nil, List.dropWhile_eq_nil_iff.mpr hblank]
        rfl
    | cons c rest =>
        have hkept : (before ++ (c :: rest ++ after)).dropWhile isBlank = c :: rest ++ after :=
          dropWhile_isBlank_append hbefore hfirst
        rw [trim, List.append_assoc, hkept, trimEnd_append hafter hlast]

/-- The words in some parts are the parts trimmed. -/
theorem exists_padded_iff : (∃ part ∈ parts, Padded word part) ↔ word ∈ parts.map trim := by
  simp only [List.mem_map, trim_eq_iff]

end ScopeMachine.Text
