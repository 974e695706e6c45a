/-
# Listings of scopes

A listing is made of blocks, one for each name, in key order. A block shows the name and, from
the column behind the names on, the lines on which it was seen. They start beside the name as
long as its bytes fit the column, and below it if they do not. Names are set in the column by
their characters, so a name that has few enough characters but too many bytes stands alone on
its row although there is room beside it.
-/

import Mathlib.Data.List.Forall2
import ScopeMachine.Proofs.Scopes.Addressing
import ScopeMachine.Proofs.Scopes.ReadingRows
import ScopeMachine.Scope.Listing

namespace ScopeMachine

namespace References

theorem fill_eq_nil_iff (count room : Nat) (lines : List Nat) :
    (fill count room lines).2 = [] ↔ lines.length ≤ room := by
  induction lines generalizing room with
  | nil => exact iff_of_true rfl (Nat.zero_le _)
  | cons line rest ih =>
      cases room with
      | zero => exact iff_of_false (List.cons_ne_nil _ _) (Nat.not_succ_le_zero _)
      | succ room =>
          rw [List.length_cons, Nat.succ_le_succ_iff]
          exact ih room

theorem length_rows_eq_one_iff (width indent : Nat) (lines : List Nat) :
    (rows width indent lines).length = 1 ↔ lines.length ≤ perRow width indent := by
  rw [rows_eq, List.length_cons, Nat.add_eq_right, List.length_eq_zero_iff, fill_eq_nil_iff]

end References

namespace Scope

/-- The lines on which a symbol was seen, in the rows that a listing has for them. -/
def rowsOf (width : Nat) (symbol : Symbol) : List (List Nat) :=
  References.rows width nameColumn symbol.references.toList

/-- The lines of the block of a symbol. -/
def blockLines (width : Nat) (symbol : Symbol) : List (List Char) :=
  References.linesOf nameColumn (Text.alignLeft nameColumn symbol.name).toList
    (wrapsAfter symbol.name) (rowsOf width symbol)

/-- How the block of a symbol looks. -/
structure Block (width : Nat) (symbol : Symbol) (lines : List (List Char)) : Prop where
  numbers : (rowsOf width symbol).flatten = symbol.references.toList
  -- The numbers start at column 16, behind a name of at most so many bytes.
  beside : symbol.name.utf8ByteSize ≤ 16 →
    (Text.alignLeft 16 symbol.name).length = 16 ∧
      ∃ first others, rowsOf width symbol = first :: others ∧
        lines = ((Text.alignLeft 16 symbol.name).toList ++ (References.rowText first).toList) ::
          others.map fun row => List.replicate 16 ' ' ++ (References.rowText row).toList
  -- Below any other name they start there as well, behind spaces only.
  below : 16 < symbol.name.utf8ByteSize →
    lines = (Text.alignLeft 16 symbol.name).toList ::
      (rowsOf width symbol).map fun row =>
        List.replicate 16 ' ' ++ (References.rowText row).toList
  single : lines.length = 1 ↔ symbol.name.utf8ByteSize ≤ 16 ∧
    symbol.references.size ≤ References.perRow width 16

variable {scope : Scope}

/-! ## Blocks -/

theorem length_alignLeft {text : String} {width : Nat} (hfits : text.length ≤ width) :
    (Text.alignLeft width text).length = width := by
  rw [Text.alignLeft, Text.spaces, String.length_append, String.length_ofList,
    List.length_replicate]
  omega

theorem newline_not_mem_alignLeft {text : String} (htext : '\n' ∉ text.toList) (width : Nat) :
    '\n' ∉ (Text.alignLeft width text).toList := by
  rw [Text.alignLeft, Text.spaces, String.toList_append, String.toList_ofList, List.mem_append,
    not_or]
  exact ⟨htext, References.newline_not_mem_spaces _⟩

theorem block_blockLines (width : Nat) (symbol : Symbol) :
    Block width symbol (blockLines width symbol) := by
  have hrows : rowsOf width symbol = _ :: _ := References.rows_eq width nameColumn _
  have hsingle :=
    References.length_rows_eq_one_iff width nameColumn symbol.references.toList
  rw [Array.length_toList] at hsingle
  by_cases hbytes : symbol.name.utf8ByteSize ≤ 16
  · have hlength : symbol.name.length ≤ 16 :=
      Nat.le_trans (Text.length_le_utf8ByteSize symbol.name) hbytes
    have hwrap : wrapsAfter symbol.name = false := decide_eq_false (Nat.not_lt.mpr hbytes)
    have hlines : blockLines width symbol =
        References.linesOf nameColumn (Text.alignLeft nameColumn symbol.name).toList false
          (rowsOf width symbol) := by
      rw [blockLines, hwrap]
    rw [hrows] at hlines
    refine ⟨References.flatten_rows _, ?_, ?_, ?_⟩
    · exact fun _ => ⟨length_alignLeft hlength, _, _, hrows, hlines⟩
    · exact fun hlong => absurd hbytes (Nat.not_le.mpr hlong)
    · rw [← rowsOf, hrows] at hsingle
      rw [hlines, References.linesOf, and_iff_right hbytes]
      rwa [List.length_cons, List.length_map]
  · have hlong := Nat.lt_of_not_le hbytes
    have hwrap : wrapsAfter symbol.name = true := decide_eq_true hlong
    have hlines : blockLines width symbol =
        References.linesOf nameColumn (Text.alignLeft nameColumn symbol.name).toList true
          (rowsOf width symbol) := by
      rw [blockLines, hwrap]
    refine ⟨References.flatten_rows _, ?_, ?_, ?_⟩
    · exact fun hfits => absurd hfits hbytes
    · exact fun _ => hlines
    · rw [hlines, References.linesOf, hrows]
      exact iff_of_false (by simp) fun hboth => hbytes hboth.1

/-! ## The lines of a listing -/

/-- Symbols are listed block by block, and a line break ends the listing. -/
theorem fields_listing {symbols : List Symbol}
    (hnames : ∀ symbol ∈ symbols, '\n' ∉ symbol.name.toList) (width : Nat) :
    Text.fields '\n' (String.join (symbols.map (listingOf width))).toList =
      symbols.flatMap (blockLines width) ++ [[]] := by
  induction symbols with
  | nil => rfl
  | cons symbol rest ih =>
      obtain ⟨hname, hrest⟩ := List.forall_mem_cons.mp hnames
      have hblock := References.fields_print (newline_not_mem_alignLeft hname nameColumn) width
        (wrapsAfter symbol.name) nameColumn symbol.references.toList
      rw [List.map_cons, String.join_cons, listingOf, String.toList_append, String.toList_append,
        String.toList_append, List.append_assoc]
      show Text.fields '\n' (_ ++ '\n' :: (String.join (rest.map (listingOf width))).toList) = _
      rw [Text.fields_append, hblock, ih hrest, List.flatMap_cons, List.append_assoc]
      rfl

/-! ## The symbols of a listing -/

namespace WellFormed

variable (hscope : scope.WellFormed)

include hscope

/-- Symbols are listed in the order of the bytes of their names. -/
theorem pairwise_inKeyOrder :
    scope.inKeyOrder.Pairwise fun first second =>
      Text.encode first.name < Text.encode second.name := by
  rw [inKeyOrder, List.pairwise_filterMap]
  apply hscope.pairwise_entries.imp
  rintro first second ⟨symbol, other, hsymbol, hother, hless⟩ _ hfirst _ hsecond
  obtain rfl := Option.some.inj (hsymbol.symm.trans hfirst)
  obtain rfl := Option.some.inj (hother.symm.trans hsecond)
  exact hless

theorem mem_inKeyOrder_iff (symbol : Symbol) :
    symbol ∈ scope.inKeyOrder ↔ symbol ∈ scope.symbols.toList := by
  rw [inKeyOrder, List.mem_filterMap, Array.mem_toList_iff, Array.mem_iff_getElem?]
  constructor
  · rintro ⟨entry, -, hsymbol⟩
    exact ⟨entry.val, hsymbol⟩
  · rintro ⟨number, hsymbol⟩
    have hless : number < scope.size := (Array.getElem?_eq_some_iff.mp hsymbol).1
    exact ⟨⟨number⟩, hscope.mem_entries_iff.mpr hless, hsymbol⟩

/-- Every symbol is listed once. -/
theorem perm_inKeyOrder : scope.inKeyOrder.Perm scope.symbols.toList := by
  have hlisted : scope.inKeyOrder.Nodup := by
    apply hscope.pairwise_inKeyOrder.imp
    rintro first _ hless rfl
    exact List.lt_irrefl _ hless
  rw [List.perm_ext_iff_of_nodup hlisted (hscope.nodup_map_name.of_map _)]
  exact hscope.mem_inKeyOrder_iff

end WellFormed

end Scope

namespace ScopeStore

open Scope

/-- The listing of any scope that a program comes to have, if no name holds a line break. It
shows every symbol once, in key order, and each with a block of its own. The numbers of a
block start at column 16: beside the name if this has at most 16 bytes, and below it
otherwise. So there is one line to a name as long as names have at most 16 bytes and the
numbers of each fit one row. -/
theorem serve_listing (requests : List Request) (settings : Settings) {index : ScopeIndex}
    {scope : Scope} (hscope : (serve {} requests).scope index = .ok scope)
    (hnames : ∀ symbol ∈ scope.symbols.toList, '\n' ∉ symbol.name.toList) :
    scope.inKeyOrder.Perm scope.symbols.toList ∧
      (scope.inKeyOrder.Pairwise fun first second =>
        Text.encode first.name < Text.encode second.name) ∧
      ∃ blocks : List (List (List Char)),
        List.Forall₂ (Block settings.printWidth) scope.inKeyOrder blocks ∧
          Text.fields '\n' (scope.listing settings).toList = blocks.flatten ++ [[]] ∧
          ((∀ symbol ∈ scope.symbols.toList, symbol.name.utf8ByteSize ≤ 16 ∧
              symbol.references.size ≤ References.perRow settings.printWidth 16) →
            blocks.flatten.length = scope.size) := by
  have hwell := ((maintained_serve requests).scope_maintained hscope).wellFormed
  refine ⟨hwell.perm_inKeyOrder, hwell.pairwise_inKeyOrder,
    scope.inKeyOrder.map (blockLines settings.printWidth), ?_, ?_, ?_⟩
  · rw [List.forall₂_map_right_iff, List.forall₂_same]
    exact fun symbol _ => block_blockLines settings.printWidth symbol
  · exact fields_listing (fun symbol hlisted =>
      hnames symbol ((hwell.mem_inKeyOrder_iff symbol).mp hlisted)) settings.printWidth
  · intro hfit
    have hone : scope.inKeyOrder.map (List.length ∘ blockLines settings.printWidth) =
        scope.inKeyOrder.map fun _ => 1 := by
      apply List.map_congr_left
      intro symbol hlisted
      have hboth := hfit symbol ((hwell.mem_inKeyOrder_iff symbol).mp hlisted)
      exact (block_blockLines settings.printWidth symbol).single.mpr hboth
    rw [List.length_flatten, List.map_map, hone, List.map_const', List.sum_replicate_nat,
      Nat.mul_one, hwell.perm_inKeyOrder.length_eq]
    exact Array.length_toList

/-- Two names of at most 16 characters and a long one are seen on line 5. -/
def accented : List Request :=
  let context : Context := { recordsReferences := true, line := 5 }
  [.create, .enter ⟨0⟩ "y" context, .enter ⟨0⟩ "éééééééééé" context,
    .enter ⟨0⟩ "a_very_long_identifier" context]

theorem serve_listing_accented :
    ∃ scope, (serve {} accented).scope ⟨0⟩ = .ok scope ∧
      (∀ symbol ∈ scope.symbols.toList, '\n' ∉ symbol.name.toList) ∧
      scope.listing {} =
        "a_very_long_identifier\n                   5\n" ++
        "y                  5\n" ++
        "éééééééééé      \n                   5\n" ∧
      scope.inKeyOrder.Perm scope.symbols.toList ∧
      ∃ blocks, List.Forall₂ (Block 80) scope.inKeyOrder blocks ∧
        Text.fields '\n' (scope.listing {}).toList = blocks.flatten ++ [[]] := by
  have hscope : (serve {} accented).scope ⟨0⟩ = .ok (serve {} accented).scopes[0] := rfl
  have hnames : ∀ symbol ∈ (serve {} accented).scopes[0].symbols.toList,
      '\n' ∉ symbol.name.toList := by
    decide +kernel
  obtain ⟨hperm, -, blocks, hblocks, hlines, -⟩ := serve_listing accented {} hscope hnames
  exact ⟨_, hscope, hnames, by decide +kernel, hperm, blocks, hblocks, hlines⟩

end ScopeStore

end ScopeMachine
