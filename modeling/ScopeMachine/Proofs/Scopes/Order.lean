/-
# Search trees in key order

The names of a search tree stand in strictly increasing order from left to right,
and entering names keeps them so. In an ordered tree the search for a name finds
the entry that stands beside the name, and the sequence of names depends on
nothing but which names are there.
-/

import Mathlib.Data.List.Sort
import ScopeMachine.Scope.NameTree

namespace ScopeMachine.NameTree

/-- One name with its entry stands before another. -/
def Precedes (first second : String × EntryId) : Prop :=
  compare first.1 second.1 = .lt

/-- The names stand in strictly increasing order. -/
def Ordered (tree : NameTree) : Prop :=
  tree.toList.Pairwise Precedes

/-- The names from left to right. -/
def nameList (tree : NameTree) : List String :=
  tree.toList.map (·.1)

variable {tree smaller greater : NameTree} {name wanted added : String} {entry number : EntryId}

theorem ordered_node_iff :
    (node smaller name entry greater).Ordered ↔
      smaller.Ordered ∧ greater.Ordered ∧
        (∀ found ∈ smaller.toList, compare found.1 name = .lt) ∧
        (∀ found ∈ greater.toList, compare name found.1 = .lt) := by
  simp only [Ordered, toList_node, List.pairwise_append, List.pairwise_cons, List.mem_cons,
    forall_eq_or_imp]
  constructor
  · rintro ⟨hsmaller, ⟨habove, hgreater⟩, hacross⟩
    exact ⟨hsmaller, hgreater, fun found hfound => (hacross found hfound).1, habove⟩
  · rintro ⟨hsmaller, hgreater, hbelow, habove⟩
    refine ⟨hsmaller, ⟨habove, hgreater⟩, ?_⟩
    intro found hfound
    have hless := hbelow found hfound
    exact ⟨hless, fun later hlater => Std.TransCmp.lt_trans hless (habove later hlater)⟩

/-! ## Searching -/

/-- In an ordered tree the search finds exactly the entries beside a name. -/
theorem Ordered.find?_eq_some_iff (hordered : tree.Ordered) :
    tree.find? wanted = some entry ↔ (wanted, entry) ∈ tree.toList := by
  induction tree with
  | leaf => simp [find?]
  | node smaller name found greater ihsmaller ihgreater =>
      obtain ⟨hsmaller, hgreater, hbelow, habove⟩ := ordered_node_iff.mp hordered
      simp only [find?, toList_node, List.mem_append, List.mem_cons, Prod.mk.injEq]
      cases hcompare : compare wanted name with
      | lt =>
          have hname : wanted ≠ name := by
            rintro rfl
            simp at hcompare
          have hgreater' : (wanted, entry) ∉ greater.toList := by
            intro hmem
            have hless := Std.TransCmp.lt_trans hcompare (habove _ hmem)
            simp at hless
          simp [ihsmaller hsmaller, hname, hgreater']
      | eq =>
          obtain rfl : wanted = name := Std.LawfulEqCmp.eq_of_compare hcompare
          have hsmaller' : (wanted, entry) ∉ smaller.toList := by
            intro hmem
            have hless := hbelow _ hmem
            simp at hless
          have hgreater' : (wanted, entry) ∉ greater.toList := by
            intro hmem
            have hless := habove _ hmem
            simp at hless
          simp [hsmaller', hgreater', eq_comm]
      | gt =>
          have hname : wanted ≠ name := by
            rintro rfl
            simp at hcompare
          have hsmaller' : (wanted, entry) ∉ smaller.toList := by
            intro hmem
            have hless := hbelow _ hmem
            rw [hcompare] at hless
            cases hless
          simp [ihgreater hgreater, hname, hsmaller']

/-- Which names a tree holds follows from what it finds. -/
theorem Ordered.mem_nameList_iff (hordered : tree.Ordered) :
    wanted ∈ tree.nameList ↔ (tree.find? wanted).isSome := by
  simp only [nameList, List.mem_map, Prod.exists, exists_and_right, exists_eq_right,
    Option.isSome_iff_exists, hordered.find?_eq_some_iff]

/-! ## Entering -/

/-- A new name is put between the smaller and the greater names. -/
theorem Ordered.exists_toList_insert (hordered : tree.Ordered) (hnew : tree.find? added = none)
    (number : EntryId) :
    ∃ before after, tree.toList = before ++ after ∧
      (tree.insert added number).toList = before ++ (added, number) :: after ∧
      (∀ found ∈ before, compare found.1 added = .lt) ∧
      (∀ found ∈ after, compare added found.1 = .lt) := by
  induction tree with
  | leaf => exact ⟨[], [], by simp [NameTree.insert]⟩
  | node smaller name entry greater ihsmaller ihgreater =>
      obtain ⟨hsmaller, hgreater, hbelow, habove⟩ := ordered_node_iff.mp hordered
      unfold find? at hnew
      unfold NameTree.insert
      cases hcompare : compare added name with
      | lt =>
          rw [hcompare] at hnew
          obtain ⟨before, after, hold, hlater, hbefore, hafter⟩ := ihsmaller hsmaller hnew
          refine ⟨before, after ++ (name, entry) :: greater.toList, ?_, ?_, hbefore, ?_⟩
          · simp [hold]
          · simp [hlater]
          · intro found hfound
            rcases List.mem_append.mp hfound with hleft | hright
            · exact hafter found hleft
            · rcases List.mem_cons.mp hright with rfl | hright
              · exact hcompare
              · exact Std.TransCmp.lt_trans hcompare (habove found hright)
      | eq =>
          rw [hcompare] at hnew
          cases hnew
      | gt =>
          rw [hcompare] at hnew
          have hless : compare name added = .lt := Std.OrientedCmp.lt_of_gt hcompare
          obtain ⟨before, after, hold, hlater, hbefore, hafter⟩ := ihgreater hgreater hnew
          refine ⟨smaller.toList ++ (name, entry) :: before, after, ?_, ?_, ?_, hafter⟩
          · simp [hold]
          · simp [hlater]
          · intro found hfound
            rcases List.mem_append.mp hfound with hleft | hright
            · exact Std.TransCmp.lt_trans (hbelow found hleft) hless
            · rcases List.mem_cons.mp hright with rfl | hright
              · exact hless
              · exact hbefore found hright

theorem Ordered.mem_toList_insert (hordered : tree.Ordered) (hnew : tree.find? added = none)
    {found : String × EntryId} :
    found ∈ (tree.insert added number).toList ↔ found ∈ tree.toList ∨ found = (added, number) := by
  obtain ⟨before, after, hold, hlater, -, -⟩ := hordered.exists_toList_insert hnew number
  rw [hold, hlater]
  simp only [List.mem_append, List.mem_cons]
  tauto

theorem Ordered.length_toList_insert (hordered : tree.Ordered)
    (hnew : tree.find? added = none) :
    (tree.insert added number).toList.length = tree.toList.length + 1 := by
  obtain ⟨before, after, hold, hlater, -, -⟩ := hordered.exists_toList_insert hnew number
  rw [hold, hlater]
  simp only [List.length_append, List.length_cons]
  omega

theorem Ordered.insert (hordered : tree.Ordered) (hnew : tree.find? added = none)
    (number : EntryId) :
    (tree.insert added number).Ordered := by
  obtain ⟨before, after, hold, hlater, hbefore, hafter⟩ :=
    hordered.exists_toList_insert hnew number
  rw [Ordered, hold, List.pairwise_append] at hordered
  obtain ⟨hfirst, hsecond, hacross⟩ := hordered
  rw [Ordered, hlater, List.pairwise_append, List.pairwise_cons]
  refine ⟨hfirst, ⟨hafter, hsecond⟩, ?_⟩
  intro found hfound other hother
  rcases List.mem_cons.mp hother with rfl | hother
  · exact hbefore found hfound
  · exact hacross found hfound other hother

/-! ## The sequence of names -/

/-- Two ordered trees with the same names have them in the same sequence. -/
theorem Ordered.nameList_eq {first second : NameTree} (hfirst : first.Ordered)
    (hsecond : second.Ordered)
    (hnames : ∀ name, (first.find? name).isSome = (second.find? name).isSome) :
    first.nameList = second.nameList := by
  let precedes (name later : String) : Prop := compare name later = .lt
  have hantisymm : Std.Antisymm precedes := ⟨by
    intro name later hless hmore
    have hself : compare name name = .lt := Std.TransCmp.lt_trans hless hmore
    simp at hself⟩
  have hirrefl : Std.Irrefl precedes := ⟨by simp [precedes]⟩
  have hsorted {tree : NameTree} (hordered : tree.Ordered) : tree.nameList.Pairwise precedes :=
    List.pairwise_map.mpr hordered
  apply List.Pairwise.eq_of_mem_iff (hsorted hfirst) (hsorted hsecond)
  intro name
  rw [hfirst.mem_nameList_iff, hsecond.mem_nameList_iff, hnames]

end ScopeMachine.NameTree
