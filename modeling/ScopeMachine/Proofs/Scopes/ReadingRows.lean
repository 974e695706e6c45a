/-
# Rows filled and read back

Rows are filled greedily: every row but the last takes as many line numbers as there is room
for, and no row starts before the one above it is full. Each row begins behind a line break and
the indent, but for the first one where that continues the line of the caller. As long as every
number fits its cell, these breaks and the width of the cells are all that is needed to read
the numbers back.
-/

import Mathlib.Data.List.Basic
import Mathlib.Data.List.TakeWhile
import ScopeMachine.Proofs.Scopes.Rows
import ScopeMachine.Text.Basic

namespace ScopeMachine.References

/-- The line of a row that starts behind the indent. -/
def indented (indent : Nat) (row : List Nat) : List Char :=
  List.replicate indent ' ' ++ (rowText row).toList

/-- The lines of rows behind the text `before`, which the first row continues unless `wrap`
sets it on a line of its own. -/
def linesOf (indent : Nat) (before : List Char) : (wrap : Bool) → List (List Nat) → List (List Char)
  | true, rows => before :: rows.map (indented indent)
  | false, [] => [before]
  | false, first :: others => (before ++ (rowText first).toList) :: others.map (indented indent)

/-- The number in a cell. -/
def cellValue (cell : List Char) : Nat :=
  Nat.ofDigitChars 10 (cell.dropWhile (· = ' ')) 0

/-- The numbers in cells of four columns, one behind the other. -/
def readCells : List Char → List Nat
  | a :: b :: c :: d :: rest => cellValue [a, b, c, d] :: readCells rest
  | _ => []

/-- The numbers in the lines of a text, of which all but the first are indented. -/
def readRows (indent : Nat) (text : List Char) : List Nat :=
  match Text.fields '\n' text with
  | [] => []
  | first :: others => readCells first ++ others.flatMap fun line => readCells (line.drop indent)

variable {width indent : Nat}

theorem rows_eq (width indent : Nat) (lines : List Nat) :
    rows width indent lines =
      (fill (perRow width indent) (perRow width indent) lines).1 ::
        (fill (perRow width indent) (perRow width indent) lines).2 := rfl

/-! ## How full the rows are -/

/-- A row that is not the last is the first one, which others follow, or one of the others. -/
theorem eq_or_mem_of_mem_dropLast {first row : List Nat} {others : List (List Nat)}
    (hrow : row ∈ (first :: others).dropLast) :
    (row = first ∧ others ≠ []) ∨ row ∈ others.dropLast := by
  by_cases hothers : others = []
  · rw [hothers] at hrow
    cases hrow
  · rw [List.dropLast_cons_of_ne_nil hothers] at hrow
    exact (List.mem_cons.mp hrow).imp (fun hfirst => ⟨hfirst, hothers⟩) id

/-- Where further rows follow, the first has taken all that there was room for, and so has each
of the others that is followed by one. -/
theorem length_fill_eq {count : Nat} (hcount : 1 ≤ count) (room : Nat) (lines : List Nat) :
    ((fill count room lines).2 ≠ [] → (fill count room lines).1.length = room) ∧
      (∀ row ∈ (fill count room lines).2.dropLast, row.length = count) ∧
      ∀ row ∈ (fill count room lines).2, row ≠ [] := by
  induction lines generalizing room with
  | nil => exact ⟨fun hothers => absurd rfl hothers, nofun, nofun⟩
  | cons line rest ih =>
      cases room with
      | zero =>
          obtain ⟨hfirst, hfull, hsome⟩ := ih (count - 1)
          refine ⟨fun _ => rfl, ?_, ?_⟩
          · intro row hrow
            rcases eq_or_mem_of_mem_dropLast hrow with ⟨rfl, hothers⟩ | hrow
            · rw [List.length_cons, hfirst hothers]
              omega
            · exact hfull row hrow
          · intro row hrow
            rcases List.mem_cons.mp hrow with rfl | hrow
            · exact List.cons_ne_nil _ _
            · exact hsome row hrow
      | succ room =>
          obtain ⟨hfirst, hfull, hsome⟩ := ih room
          exact ⟨fun hothers => congrArg (· + 1) (hfirst hothers), hfull, hsome⟩

/-- Every row but the last is full. -/
theorem length_of_mem_dropLast {lines row : List Nat}
    (hrow : row ∈ (rows width indent lines).dropLast) : row.length = perRow width indent := by
  obtain ⟨hfirst, hfull, -⟩ :=
    length_fill_eq (Nat.le_max_left 1 _) (perRow width indent) lines
  rcases eq_or_mem_of_mem_dropLast hrow with ⟨rfl, hothers⟩ | hrow
  · exact hfirst hothers
  · exact hfull row hrow

theorem length_le_of_mem {lines row : List Nat} (hrow : row ∈ rows width indent lines) :
    row.length ≤ perRow width indent := by
  obtain ⟨hfirst, hothers⟩ := length_fill_le (Nat.le_max_left 1 _) (perRow width indent) lines
  rcases List.mem_cons.mp hrow with rfl | hrow
  · exact hfirst
  · exact hothers row hrow

/-- No row is empty, unless there is nothing to print. -/
theorem ne_nil_of_mem {lines row : List Nat} (hlines : lines ≠ [])
    (hrow : row ∈ rows width indent lines) : row ≠ [] := by
  obtain ⟨-, -, hsome⟩ := length_fill_eq (Nat.le_max_left 1 _) (perRow width indent) lines
  rcases List.mem_cons.mp hrow with rfl | hrow
  · obtain ⟨line, rest, rfl⟩ := List.exists_cons_of_ne_nil hlines
    have hroom : perRow width indent = perRow width indent - 1 + 1 :=
      (Nat.sub_add_cancel (Nat.le_max_left 1 _)).symm
    rw [hroom]
    exact List.cons_ne_nil _ _
  · exact hsome row hrow

/-! ## The lines of a print -/

theorem newline_not_mem_indented (indent : Nat) (row : List Nat) : '\n' ∉ indented indent row := by
  rw [indented, List.mem_append, not_or]
  exact ⟨newline_not_mem_spaces indent, newline_not_mem_rowText row⟩

theorem fields_brokenRows {before : List Char} (hbefore : '\n' ∉ before) (indent : Nat)
    (rows : List (List Nat)) :
    Text.fields '\n' (before ++ (brokenRows indent rows).toList) =
      before :: rows.map (indented indent) := by
  induction rows generalizing before with
  | nil =>
      rw [brokenRows, List.map_nil, String.join_nil, String.toList_empty, List.append_nil]
      exact Text.fields_of_not_mem hbefore
  | cons row others ih =>
      have hrest := ih (newline_not_mem_indented indent row)
      rw [brokenRows] at *
      rw [List.map_cons, String.join_cons, String.toList_append, String.toList_append,
        toList_rowBreak, List.cons_append, List.cons_append, Text.fields_append,
        Text.fields_of_not_mem hbefore]
      exact congrArg (before :: ·) hrest

/-- Behind a text without a line break the numbers stand in their rows. -/
theorem fields_print {before : List Char} (hbefore : '\n' ∉ before) (width : Nat) (wrap : Bool)
    (indent : Nat) (lines : List Nat) :
    Text.fields '\n' (before ++ (print width wrap indent lines).toList) =
      linesOf indent before wrap (rows width indent lines) := by
  rw [print_eq, rows_eq]
  generalize fill (perRow width indent) (perRow width indent) lines = filled
  dsimp only
  cases wrap with
  | true =>
      have hrows := fields_brokenRows hbefore indent (filled.1 :: filled.2)
      rw [brokenRows, List.map_cons, String.join_cons, String.append_assoc] at hrows
      rw [if_pos rfl, linesOf]
      exact hrows
  | false =>
      have hfirst : '\n' ∉ before ++ (rowText filled.1).toList := by
        rw [List.mem_append, not_or]
        exact ⟨hbefore, newline_not_mem_rowText filled.1⟩
      rw [if_neg Bool.false_ne_true, String.empty_append, String.toList_append,
        ← List.append_assoc, linesOf]
      exact fields_brokenRows hfirst indent filled.2

/-! ## The end of a print -/

/-- The text of some numbers ends in a digit. -/
theorem exists_getLast?_cellsFrom {lines : List Nat} (hlines : lines ≠ [])
    (width indent column : Nat) :
    ∃ c, c ≠ '\n' ∧ (cellsFrom width indent column lines).toList.getLast? = some c := by
  induction lines generalizing column with
  | nil => exact absurd rfl hlines
  | cons line rest ih =>
      have hcell : ∃ c, c ≠ '\n' ∧ (cell line).toList.getLast? = some c := by
        have hsome : (cell line).toList ≠ [] := by
          have hlength : 4 ≤ (cell line).length := cellWidth_le_length_cell line
          rw [← String.length_toList] at hlength
          exact List.ne_nil_of_length_pos (by omega)
        refine ⟨_, ?_, List.getLast?_eq_some_getLast hsome⟩
        exact ne_of_mem_of_not_mem (List.getLast_mem hsome) (newline_not_mem_cell line)
      -- The first number ends the text if it is the only one.
      have hend (here : Nat) : ∃ c, c ≠ '\n' ∧
          ((cell line).toList ++ (cellsFrom width indent here rest).toList).getLast? = some c := by
        rw [List.getLast?_append]
        by_cases hrest : rest = []
        · subst hrest
          rw [cellsFrom, String.toList_empty, List.getLast?_nil, Option.none_or]
          exact hcell
        · obtain ⟨c, hc, hlast⟩ := ih hrest here
          exact ⟨c, hc, by rw [hlast, Option.some_or]⟩
      rw [cellsFrom]
      split
      · obtain ⟨c, hc, hlast⟩ := hend (indent + cellWidth)
        refine ⟨c, hc, ?_⟩
        rw [String.toList_append, String.toList_append, List.append_assoc, List.getLast?_append,
          hlast, Option.some_or]
      · rw [String.toList_append]
        exact hend (column + cellWidth)

/-- A line break ends a print only if there is nothing to print behind it. -/
theorem getLast?_print_eq_newline_iff (width : Nat) (wrap : Bool) (indent : Nat)
    (lines : List Nat) :
    (print width wrap indent lines).toList.getLast? = some '\n' ↔
      wrap = true ∧ indent = 0 ∧ lines = [] := by
  rw [print, String.toList_append, List.getLast?_append]
  by_cases hlines : lines = []
  · subst hlines
    cases wrap with
    | true =>
        rw [if_pos rfl, toList_rowBreak, List.getLast?_cons, List.getLast?_replicate]
        by_cases hindent : indent = 0
        · simp [hindent, cellsFrom]
        · simp [hindent, cellsFrom]
    | false => simp [cellsFrom]
  · obtain ⟨c, hc, hlast⟩ := exists_getLast?_cellsFrom hlines width indent indent
    rw [hlast, Option.some_or, Option.some_inj]
    exact iff_of_false hc fun hnothing => hlines hnothing.2.2

example : print 80 true 0 [] = "\n" := by decide

/-! ## Reading back -/

theorem cellValue_cell (line : Nat) : cellValue (cell line).toList = line := by
  have hspaces : ∀ c ∈ List.replicate (cellWidth - (toString line).length) ' ',
      decide (c = ' ') = true := fun c hc => decide_eq_true (List.eq_of_mem_replicate hc)
  have hdigits : (Nat.toDigits 10 line).dropWhile (· = ' ') = Nat.toDigits 10 line := by
    rw [List.dropWhile_eq_self_iff]
    intro hsome hspace
    have hdigit := Nat.isDigit_of_mem_toDigits (by decide) (by decide) (List.getElem_mem hsome)
    rw [of_decide_eq_true hspace] at hdigit
    exact absurd hdigit (by decide)
  rw [cellValue, cell, Text.alignRight, Text.spaces, String.toList_append, String.toList_ofList,
    List.dropWhile_append_of_pos hspaces, Nat.toString_eq_repr, Nat.toList_repr, hdigits,
    Nat.ofDigitChars_ten_toDigits]

/-- Numbers that fit their cells are read back from a row. -/
theorem readCells_rowText {row : List Nat} (hrow : ∀ line ∈ row, line ≤ 9999) :
    readCells (rowText row).toList = row := by
  induction row with
  | nil => rfl
  | cons line rest ih =>
      obtain ⟨hline, hrest⟩ := List.forall_mem_cons.mp hrow
      have hlength : (cell line).toList.length = 4 := by
        rw [String.length_toList, (length_cell_eq_iff line).mpr hline, cellWidth]
      obtain ⟨a, b, c, d, hcell⟩ := List.length_eq_four.mp hlength
      have hvalue := cellValue_cell line
      have hnumbers := ih hrest
      rw [rowText] at *
      rw [hcell] at hvalue
      rw [List.map_cons, String.join_cons, String.toList_append, hcell]
      show cellValue [a, b, c, d] :: readCells (String.join (rest.map cell)).toList = line :: rest
      rw [hvalue, hnumbers]

theorem flatMap_readCells_indented {rows : List (List Nat)}
    (hrows : ∀ row ∈ rows, ∀ line ∈ row, line ≤ 9999) :
    (rows.map (indented indent)).flatMap (fun line => readCells (line.drop indent)) =
      rows.flatten := by
  induction rows with
  | nil => rfl
  | cons row others ih =>
      obtain ⟨hrow, hothers⟩ := List.forall_mem_cons.mp hrows
      have hdrop : (indented indent row).drop indent = (rowText row).toList :=
        List.drop_left' List.length_replicate
      rw [List.map_cons, List.flatMap_cons, List.flatten_cons, hdrop, readCells_rowText hrow,
        ih hothers]

/-- Numbers that fit their cells are read back from their print. -/
theorem readRows_print (width : Nat) (wrap : Bool) (indent : Nat) {lines : List Nat}
    (hlines : ∀ line ∈ lines, line ≤ 9999) :
    readRows indent (print width wrap indent lines).toList = lines := by
  have hfields := fields_print List.not_mem_nil width wrap indent lines
  have hflatten : (rows width indent lines).flatten = lines := flatten_rows lines
  have hrows : ∀ row ∈ rows width indent lines, ∀ line ∈ row, line ≤ 9999 := by
    intro row hrow line hline
    apply hlines
    rw [← hflatten]
    exact List.mem_flatten.mpr ⟨row, hrow, hline⟩
  rw [List.nil_append] at hfields
  rw [readRows, hfields]
  cases wrap with
  | true =>
      show readCells [] ++ _ = lines
      rw [flatMap_readCells_indented hrows, hflatten]
      rfl
  | false =>
      rw [rows_eq] at hflatten hrows ⊢
      obtain ⟨hfirst, hothers⟩ := List.forall_mem_cons.mp hrows
      show readCells (rowText _).toList ++ _ = lines
      rw [readCells_rowText hfirst, flatMap_readCells_indented hothers]
      exact hflatten

/-- How line numbers are printed. They stand in rows in their order. Every row but the last has
just as many as there is room for, and the last has no more, and some if there are any. The
lines of the text are these rows, each behind the indent; without `wrap` the first of them
continues the line of the caller, and so has none. No line break ends the text, unless `wrap`
made one and nothing follows it. From numbers of four digits at most the list is read back,
so no other list of such numbers is printed like it. -/
theorem print_fills_rows (width : Nat) (wrap : Bool) (indent : Nat) (lines : List Nat) :
    (rows width indent lines).flatten = lines ∧
      (∀ row ∈ (rows width indent lines).dropLast,
        row.length = max 1 ((width - indent) / cellWidth)) ∧
      (∀ row ∈ rows width indent lines,
        row.length ≤ max 1 ((width - indent) / cellWidth) ∧ (lines ≠ [] → row ≠ [])) ∧
      Text.fields '\n' (print width wrap indent lines).toList =
        linesOf indent [] wrap (rows width indent lines) ∧
      ((print width wrap indent lines).toList.getLast? = some '\n' ↔
        wrap = true ∧ indent = 0 ∧ lines = []) ∧
      ((∀ line ∈ lines, line ≤ 9999) →
        readRows indent (print width wrap indent lines).toList = lines ∧
          ∀ others : List Nat, (∀ line ∈ others, line ≤ 9999) →
            print width wrap indent others = print width wrap indent lines → others = lines) := by
  refine ⟨flatten_rows lines, fun row hrow => length_of_mem_dropLast hrow,
    fun row hrow => ⟨length_le_of_mem hrow, fun hlines => ne_nil_of_mem hlines hrow⟩,
    fields_print List.not_mem_nil width wrap indent lines,
    getLast?_print_eq_newline_iff width wrap indent lines, ?_⟩
  intro hlines
  have hread := readRows_print width wrap indent hlines
  refine ⟨hread, ?_⟩
  intro others hothers hsame
  have hback := readRows_print width wrap indent hothers
  rw [hsame, hread] at hback
  exact hback.symm

theorem print_fills_rows_threeToARow :
    let lines := [1, 23, 456, 7890, 9999]
    (∀ line ∈ lines, line ≤ 9999) ∧
      rows 20 8 lines = [[1, 23, 456], [7890, 9999]] ∧
      Text.fields '\n' (print 20 true 8 lines).toList =
        ["", "           1  23 456", "        78909999"].map String.toList ∧
      readRows 8 (print 20 true 8 lines).toList = lines ∧
      print 20 true 8 [1, 23, 456, 7890] ≠ print 20 true 8 lines := by
  intro lines
  have hlines : ∀ line ∈ lines, line ≤ 9999 := by decide
  obtain ⟨-, -, -, hfields, -, hback⟩ := print_fills_rows 20 true 8 lines
  obtain ⟨hread, honly⟩ := hback hlines
  have hrows : rows 20 8 lines = [[1, 23, 456], [7890, 9999]] := by decide
  rw [hrows] at hfields
  refine ⟨hlines, hrows, hfields.trans (by decide), hread, ?_⟩
  intro hsame
  exact absurd (honly [1, 23, 456, 7890] (by decide) hsame) (by decide)

end ScopeMachine.References
