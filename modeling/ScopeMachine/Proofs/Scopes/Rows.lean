/-
# Rows of references

Line numbers are printed in rows. A row takes as many cells of four columns as there is room
for behind the indent, and one cell in any case. A number of more than four digits is written
in full and still counted as one cell. So a row ends within the print width, or behind the one
number that it has to take, unless it takes several numbers of which some have more digits
than their cells.
-/

import ScopeMachine.Scope.Listing

namespace ScopeMachine

namespace Text

/-- The columns at which the lines of a text end, if the text begins at `column`. -/
def lineEnds : (column : Nat) → List Char → List Nat
  | column, [] => [column]
  | column, c :: rest =>
    if c = '\n' then column :: lineEnds 0 rest else lineEnds (column + 1) rest

theorem lineEnds_append (column : Nat) {text : List Char} (hline : '\n' ∉ text)
    (rest : List Char) :
    lineEnds column (text ++ rest) = lineEnds (column + text.length) rest := by
  induction text generalizing column with
  | nil => rfl
  | cons c text ih =>
      obtain ⟨hc, htext⟩ := List.ne_and_not_mem_of_not_mem_cons hline
      rw [List.cons_append, lineEnds, if_neg hc.symm, ih (column + 1) htext, List.length_cons]
      congr 1
      omega

end Text

namespace References

/-- How many line numbers a full row takes. -/
def perRow (width indent : Nat) : Nat :=
  max 1 ((width - indent) / cellWidth)

/-- Line numbers in rows: up to `room` of them make the first row, and each of the others
takes up to `count`. -/
def fill (count : Nat) : (room : Nat) → List Nat → List Nat × List (List Nat)
  | _, [] => ([], [])
  | 0, line :: rest =>
    let (row, others) := fill count (count - 1) rest
    ([], (line :: row) :: others)
  | room + 1, line :: rest =>
    let (row, others) := fill count room rest
    (line :: row, others)

/-- The rows of a list of line numbers; the first may be empty. -/
def rows (width indent : Nat) (lines : List Nat) : List (List Nat) :=
  let (row, others) := fill (perRow width indent) (perRow width indent) lines
  row :: others

/-- The text of a row. -/
def rowText (row : List Nat) : String :=
  String.join (row.map cell)

/-- The text of rows that each start behind a break. -/
def brokenRows (indent : Nat) (rows : List (List Nat)) : String :=
  String.join (rows.map fun row => rowBreak indent ++ rowText row)

/-- How many columns the numbers of a row take. -/
def rowWidth : List Nat → Nat
  | [] => 0
  | line :: rest => (cell line).length + rowWidth rest

/-- How many columns the numbers of a row take beyond their cells. -/
def surplus : List Nat → Nat
  | [] => 0
  | line :: rest => ((cell line).length - cellWidth) + surplus rest

/-- How many columns the first number of a row takes. -/
def leadWidth (row : List Nat) : Nat :=
  (row.head?.map fun line => (cell line).length).getD 0

/-- A row ends within the print width, or behind its first number. -/
def Fits (width indent : Nat) (row : List Nat) : Prop :=
  indent + rowWidth row ≤ max width (indent + leadWidth row)

variable {width indent : Nat}

/-! ## The text in rows -/

/-- The next number goes on the row unless that is full. -/
theorem break_iff {placed : Nat} (hplaced : placed ≤ perRow width indent) :
    width < indent + cellWidth * placed + cellWidth ∧ indent < indent + cellWidth * placed ↔
      placed = perRow width indent := by
  unfold perRow cellWidth at *
  omega

/-- With some numbers on the row already, the others fill it up and then further rows. -/
theorem cellsFrom_eq {placed : Nat} (hplaced : placed ≤ perRow width indent) (lines : List Nat) :
    cellsFrom width indent (indent + cellWidth * placed) lines =
      let filled := fill (perRow width indent) (perRow width indent - placed) lines
      rowText filled.1 ++ brokenRows indent filled.2 := by
  have hcount : 1 ≤ perRow width indent := Nat.le_max_left _ _
  induction lines generalizing placed with
  | nil => rfl
  | cons line rest ih =>
      rw [cellsFrom]
      by_cases hfull : placed = perRow width indent
      · have hrest := ih hcount
        rw [if_pos ((break_iff hplaced).mpr hfull), hfull, Nat.sub_self]
        rw [Nat.mul_one] at hrest
        simp only [fill, hrest, rowText, brokenRows, List.map_nil, String.join_nil, List.map_cons,
          String.join_cons, String.append_assoc, String.empty_append]
      · have hless : placed < perRow width indent := Nat.lt_of_le_of_ne hplaced hfull
        have hroom : perRow width indent - placed = perRow width indent - (placed + 1) + 1 := by
          omega
        have hrest := ih hless
        rw [if_neg (mt (break_iff hplaced).mp hfull), hroom]
        rw [Nat.mul_succ, ← Nat.add_assoc] at hrest
        simp only [fill, hrest, rowText, List.map_cons, String.join_cons, String.append_assoc]

theorem print_eq (width : Nat) (wrap : Bool) (indent : Nat) (lines : List Nat) :
    print width wrap indent lines =
      let filled := fill (perRow width indent) (perRow width indent) lines
      (if wrap then rowBreak indent else "") ++
        (rowText filled.1 ++ brokenRows indent filled.2) := by
  have hcells := cellsFrom_eq (Nat.zero_le (perRow width indent)) lines
  rw [print]
  exact congrArg _ hcells

/-! ## What is on the rows -/

theorem flatten_fill (count room : Nat) (lines : List Nat) :
    (fill count room lines).1 ++ (fill count room lines).2.flatten = lines := by
  induction lines generalizing room with
  | nil => rfl
  | cons line rest ih =>
      cases room with
      | zero => exact congrArg (line :: ·) (ih (count - 1))
      | succ room => exact congrArg (line :: ·) (ih room)

theorem flatten_rows (lines : List Nat) : (rows width indent lines).flatten = lines :=
  flatten_fill _ _ lines

theorem length_fill_le {count : Nat} (hcount : 1 ≤ count) (room : Nat) (lines : List Nat) :
    (fill count room lines).1.length ≤ room ∧
      ∀ row ∈ (fill count room lines).2, row.length ≤ count := by
  induction lines generalizing room with
  | nil => exact ⟨Nat.zero_le _, nofun⟩
  | cons line rest ih =>
      cases room with
      | zero =>
          obtain ⟨hfirst, hothers⟩ := ih (count - 1)
          refine ⟨Nat.le_refl _, ?_⟩
          intro row hrow
          rcases List.mem_cons.mp hrow with rfl | hrow
          · rw [List.length_cons]
            omega
          · exact hothers row hrow
      | succ room =>
          obtain ⟨hfirst, hothers⟩ := ih room
          exact ⟨Nat.succ_le_succ hfirst, hothers⟩

/-- A row of several numbers has a cell for each within the print width. -/
theorem length_rows {lines row : List Nat} (hrow : row ∈ rows width indent lines) :
    row.length ≤ 1 ∨ indent + cellWidth * row.length ≤ width := by
  have hcount : 1 ≤ perRow width indent := Nat.le_max_left _ _
  have hlength : row.length ≤ perRow width indent := by
    obtain ⟨hfirst, hothers⟩ := length_fill_le hcount (perRow width indent) lines
    rcases List.mem_cons.mp hrow with rfl | hrow
    · exact hfirst
    · exact hothers row hrow
  unfold perRow cellWidth at *
  omega

/-! ## How wide the rows are -/

theorem length_cell (line : Nat) : (cell line).length = max cellWidth (toString line).length := by
  rw [cell, Text.alignRight, Text.spaces, String.length_append, String.length_ofList,
    List.length_replicate]
  omega

theorem cellWidth_le_length_cell (line : Nat) : cellWidth ≤ (cell line).length := by
  rw [length_cell]
  exact Nat.le_max_left _ _

theorem length_cell_eq_iff (line : Nat) : (cell line).length = cellWidth ↔ line ≤ 9999 := by
  have hdigits : (toString line).length ≤ 4 ↔ line < 10000 := by
    rw [← String.length_toList, Nat.toString_eq_repr, Nat.toList_repr]
    exact Nat.length_toDigits_le_iff (by decide) (by decide)
  rw [length_cell]
  unfold cellWidth
  omega

theorem leadWidth_cons (line : Nat) (rest : List Nat) :
    leadWidth (line :: rest) = (cell line).length := by
  rw [leadWidth, List.head?_cons, Option.map_some, Option.getD_some]

theorem rowWidth_eq (row : List Nat) : rowWidth row = cellWidth * row.length + surplus row := by
  induction row with
  | nil => rfl
  | cons line rest ih =>
      have hcell := cellWidth_le_length_cell line
      rw [rowWidth, surplus, ih, List.length_cons, Nat.mul_succ]
      omega

theorem surplus_eq_zero {row : List Nat} (hrow : ∀ line ∈ row, line ≤ 9999) : surplus row = 0 := by
  induction row with
  | nil => rfl
  | cons line rest ih =>
      obtain ⟨hline, hrest⟩ := List.forall_mem_cons.mp hrow
      rw [surplus, (length_cell_eq_iff line).mpr hline, ih hrest, Nat.sub_self]

/-- A row ends within its bounds just if it takes no second number, or has room for the digits
beyond the cells. -/
theorem fits_iff (row : List Nat) :
    Fits width indent row ↔
      row.length ≤ 1 ∨ indent + cellWidth * row.length + surplus row ≤ width := by
  rw [Nat.add_assoc, ← rowWidth_eq]
  match row with
  | [] => exact iff_of_true (Nat.le_max_right _ _) (.inl (Nat.zero_le _))
  | [line] =>
      rw [Fits, rowWidth, leadWidth_cons, rowWidth, Nat.add_zero]
      exact iff_of_true (Nat.le_max_right _ _) (.inl (Nat.le_refl _))
  | first :: second :: rest =>
      have hsecond : 4 ≤ (cell second).length := cellWidth_le_length_cell second
      rw [Fits, leadWidth_cons, rowWidth, rowWidth, List.length_cons, List.length_cons]
      omega

/-! ## Where the lines end -/

theorem newline_not_mem_cell (line : Nat) : '\n' ∉ (cell line).toList := by
  rw [cell, Text.alignRight, Text.spaces, String.toList_append, String.toList_ofList,
    Nat.toString_eq_repr, Nat.toList_repr, List.mem_append, not_or]
  constructor
  · intro hspace
    exact absurd (List.eq_of_mem_replicate hspace) (by decide)
  · intro hdigit
    exact absurd (Nat.isDigit_of_mem_toDigits (by decide) (by decide) hdigit) (by decide)

theorem newline_not_mem_rowText (row : List Nat) : '\n' ∉ (rowText row).toList := by
  rw [rowText, String.toList_join, List.mem_flatMap]
  rintro ⟨text, htext, hline⟩
  obtain ⟨line, -, rfl⟩ := List.mem_map.mp htext
  exact newline_not_mem_cell line hline

theorem length_rowText (row : List Nat) : (rowText row).toList.length = rowWidth row := by
  induction row with
  | nil => rfl
  | cons line rest ih =>
      rw [rowText] at *
      rw [List.map_cons, String.join_cons, String.toList_append, List.length_append, ih,
        String.length_toList, rowWidth]

theorem lineEnds_rowText (column : Nat) (row : List Nat) (rest : List Char) :
    Text.lineEnds column ((rowText row).toList ++ rest) =
      Text.lineEnds (column + rowWidth row) rest := by
  rw [Text.lineEnds_append column (newline_not_mem_rowText row), length_rowText]

theorem newline_not_mem_spaces (count : Nat) : '\n' ∉ List.replicate count ' ' := fun hspace =>
  absurd (List.eq_of_mem_replicate hspace) (by decide)

theorem toList_rowBreak (indent : Nat) :
    (rowBreak indent).toList = '\n' :: List.replicate indent ' ' := by
  rw [rowBreak, Text.spaces, String.toList_append, String.toList_ofList, String.toList_ofList]
  rfl

theorem lineEnds_rowBreak (column indent : Nat) (rest : List Char) :
    Text.lineEnds column ((rowBreak indent).toList ++ rest) =
      column :: Text.lineEnds indent rest := by
  rw [toList_rowBreak, List.cons_append, Text.lineEnds, if_pos rfl,
    Text.lineEnds_append 0 (newline_not_mem_spaces indent), List.length_replicate, Nat.zero_add]

theorem lineEnds_brokenRows (column indent : Nat) (rows : List (List Nat)) :
    Text.lineEnds column (brokenRows indent rows).toList =
      column :: rows.map fun row => indent + rowWidth row := by
  induction rows generalizing column with
  | nil => rfl
  | cons row others ih =>
      rw [brokenRows] at *
      rw [List.map_cons, String.join_cons, String.toList_append, String.toList_append,
        List.append_assoc, lineEnds_rowBreak, lineEnds_rowText]
      exact congrArg (column :: ·) (ih _)

/-- The lines end where the rows do, behind the line that the numbers leave with `wrap`. -/
theorem lineEnds_print (width : Nat) (wrap : Bool) (indent : Nat) (lines : List Nat) :
    Text.lineEnds indent (print width wrap indent lines).toList =
      (if wrap then [indent] else []) ++
        (rows width indent lines).map fun row => indent + rowWidth row := by
  have hrows := lineEnds_brokenRows
    (indent + rowWidth (fill (perRow width indent) (perRow width indent) lines).1) indent
    (fill (perRow width indent) (perRow width indent) lines).2
  rw [print_eq]
  dsimp only
  cases wrap with
  | true =>
      rw [if_pos rfl, String.toList_append, String.toList_append, lineEnds_rowBreak,
        lineEnds_rowText, hrows]
      rfl
  | false =>
      rw [if_neg Bool.false_ne_true, String.empty_append, String.toList_append,
        lineEnds_rowText, hrows]
      rfl

/-- Where the lines of a print end. The numbers stand in rows, and a row of several numbers
has a cell for each within the print width. Such a row runs past the width just if its numbers
have more digits beyond their cells than there is room left. So no line does, but for the
one number that every row takes, as long as the numbers have four digits at most. -/
theorem print_within (width : Nat) (wrap : Bool) (indent : Nat) (lines : List Nat) :
    (rows width indent lines).flatten = lines ∧
      Text.lineEnds indent (print width wrap indent lines).toList =
        (if wrap then [indent] else []) ++
          (rows width indent lines).map (fun row => indent + rowWidth row) ∧
      (∀ row ∈ rows width indent lines,
        (row.length ≤ 1 ∨ indent + cellWidth * row.length ≤ width) ∧
          (Fits width indent row ↔
            row.length ≤ 1 ∨ indent + cellWidth * row.length + surplus row ≤ width)) ∧
      ((∀ line ∈ lines, line ≤ 9999) →
        ∀ column ∈ Text.lineEnds indent (print width wrap indent lines).toList,
          column ≤ max width (indent + cellWidth)) := by
  refine ⟨flatten_rows lines, lineEnds_print width wrap indent lines,
    fun row hrow => ⟨length_rows hrow, fits_iff row⟩, ?_⟩
  intro hlines column hcolumn
  rw [lineEnds_print, List.mem_append] at hcolumn
  rcases hcolumn with hcolumn | hcolumn
  · have hindent : column = indent := by
      cases wrap with
      | true => exact List.mem_singleton.mp hcolumn
      | false => cases hcolumn
    rw [hindent]
    omega
  · obtain ⟨row, hrow, rfl⟩ := List.mem_map.mp hcolumn
    have hnumbers : ∀ line ∈ row, line ≤ 9999 := by
      intro line hline
      have hall : line ∈ (rows width indent lines).flatten :=
        List.mem_flatten.mpr ⟨row, hrow, hline⟩
      rw [flatten_rows] at hall
      exact hlines line hall
    have hlength := length_rows hrow
    rw [rowWidth_eq, surplus_eq_zero hnumbers]
    unfold cellWidth at *
    omega

theorem print_within_threeToARow :
    (∀ line ∈ [1, 23, 456, 7890, 9999], line ≤ 9999) ∧
      (∀ column ∈ Text.lineEnds 8 (print 20 true 8 [1, 23, 456, 7890, 9999]).toList,
        column ≤ 20) ∧
      rows 20 8 [10000, 20000, 30000] = [[10000, 20000, 30000]] ∧
      Text.lineEnds 8 (print 20 false 8 [10000, 20000, 30000]).toList = [23] ∧
      ¬ Fits 20 8 [10000, 20000, 30000] := by
  have hlines : ∀ line ∈ [1, 23, 456, 7890, 9999], line ≤ 9999 := by decide
  obtain ⟨-, -, -, hwithin⟩ := print_within 20 true 8 [1, 23, 456, 7890, 9999]
  obtain ⟨-, hends, hrows, -⟩ := print_within 20 false 8 [10000, 20000, 30000]
  have hone : rows 20 8 [10000, 20000, 30000] = [[10000, 20000, 30000]] := by decide
  rw [hone] at hends hrows
  refine ⟨hlines, hwithin hlines, hone, hends.trans (by decide), ?_⟩
  rw [(hrows _ List.mem_cons_self).2]
  decide

end References

end ScopeMachine
