/-
# Key order and ranks

Whatever names are entered and whenever they are ranked, the search tree of a scope
stays ordered by the bytes of the names, a walk through it visits every symbol once
in this order, and the rank of a symbol is the number of smaller names. The order in
which names were entered is thus forgotten: two scopes with the same names give every
name the same address.
-/

import ScopeMachine.Proofs.Scopes.Walk
import ScopeMachine.Proofs.Text.ByteOrder

namespace ScopeMachine

/-- At every node the names to the left are smaller and the names to the right are
greater, as sequences of bytes. -/
def NameTree.IsSearchTree : NameTree → Prop
  | .leaf => True
  | .node smaller name _ greater =>
    (∀ other ∈ smaller.nameList, Text.encode other < Text.encode name) ∧
      (∀ other ∈ greater.nameList, Text.encode name < Text.encode other) ∧
      smaller.IsSearchTree ∧ greater.IsSearchTree

theorem NameTree.Ordered.isSearchTree {tree : NameTree} (hordered : tree.Ordered) :
    tree.IsSearchTree := by
  induction tree with
  | leaf => trivial
  | node smaller name entry greater ihsmaller ihgreater =>
      obtain ⟨hsmaller, hgreater, hless, hmore⟩ := ordered_node_iff.mp hordered
      refine ⟨?_, ?_, ihsmaller hsmaller, ihgreater hgreater⟩
      · intro other hother
        obtain ⟨found, hfound, rfl⟩ := List.mem_map.mp hother
        exact Text.compare_eq_lt_iff_encode_lt.mp (hless found hfound)
      · intro other hother
        obtain ⟨found, hfound, rfl⟩ := List.mem_map.mp hother
        exact Text.compare_eq_lt_iff_encode_lt.mp (hmore found hfound)

/-- No name stands twice in an ordered tree. -/
theorem NameTree.Ordered.nodup_nameList {tree : NameTree} (hordered : tree.Ordered) :
    tree.nameList.Nodup := by
  rw [NameTree.nameList, List.Nodup, List.pairwise_map]
  apply hordered.imp
  rintro ⟨first, _⟩ ⟨second, _⟩ hless rfl
  have hself : compare first first = .lt := hless
  simp at hself

namespace Scope

/-- Some symbol has the name. -/
def Holds (scope : Scope) (name : String) : Prop :=
  ∃ symbol ∈ scope.symbols, symbol.name = name

/-- The name of one entry is smaller than that of another. -/
def Precedes (scope : Scope) (first second : EntryId) : Prop :=
  ∃ symbol other, scope.symbol? first = some symbol ∧ scope.symbol? second = some other ∧
    Text.encode symbol.name < Text.encode other.name

/-- How many names are smaller than a name. -/
def countBelow (scope : Scope) (name : String) : Nat :=
  scope.symbols.toList.countP fun symbol => Text.encode symbol.name < Text.encode name

/-- The address of a name, if the scope holds it and is ranked. -/
def addressOf? (scope : Scope) (name : String) : Option SymbolAddr := do
  let entry ← scope.search name
  let rank ← scope.rank? entry
  return ⟨scope.index, rank⟩

variable {scope : Scope}

namespace WellFormed

variable (hscope : scope.WellFormed)

include hscope

theorem holds_iff {name : String} : scope.Holds name ↔ ∃ entry, scope.search name = some entry := by
  simp only [Holds, Array.mem_iff_getElem?, hscope.searched]
  constructor
  · rintro ⟨symbol, ⟨number, hsymbol⟩, hname⟩
    exact ⟨⟨number⟩, symbol, hsymbol, hname⟩
  · rintro ⟨⟨number⟩, symbol, hsymbol, hname⟩
    exact ⟨symbol, ⟨number, hsymbol⟩, hname⟩

/-- No two symbols have the same name. -/
theorem nodup_map_name : (scope.symbols.toList.map Symbol.name).Nodup := by
  rw [List.Nodup, List.pairwise_map, List.pairwise_iff_getElem]
  intro first second hfirst hsecond hless hsame
  have hsearched (number : Nat) (hnumber : number < scope.symbols.toList.length) :
      scope.search scope.symbols.toList[number].name = some ⟨number⟩ := by
    rw [hscope.searched]
    exact ⟨scope.symbols.toList[number], by simp [symbol?], rfl⟩
  have hentries := hsearched first hfirst
  rw [hsame, hsearched second hsecond] at hentries
  cases hentries
  exact absurd hless (Nat.lt_irrefl _)

/-- The names of the tree are those of the symbols, in another order. -/
theorem perm_nameList :
    (scope.symbols.toList.map Symbol.name).Perm scope.names.nameList := by
  rw [List.perm_ext_iff_of_nodup hscope.nodup_map_name hscope.ordered.nodup_nameList]
  intro name
  rw [hscope.ordered.mem_nameList_iff, Option.isSome_iff_exists]
  show _ ↔ ∃ entry, scope.search name = some entry
  rw [← hscope.holds_iff]
  simp [Holds]

theorem countBelow_eq (name : String) :
    scope.countBelow name =
      scope.names.nameList.countP fun other => Text.encode other < Text.encode name := by
  rw [countBelow, ← hscope.perm_nameList.countP_eq, List.countP_map]
  rfl

/-- The names that stand before a name are those smaller than it. -/
theorem length_before_eq {before after : List (String × EntryId)} {name : String}
    {entry : EntryId} (hsplit : scope.names.toList = before ++ (name, entry) :: after) :
    scope.countBelow name = before.length := by
  have hordered := hscope.ordered
  rw [NameTree.Ordered, hsplit, List.pairwise_append, List.pairwise_cons] at hordered
  obtain ⟨-, ⟨hafter, -⟩, hbefore⟩ := hordered
  have hless (found : String × EntryId) (hfound : found ∈ before) :
      Text.encode found.1 < Text.encode name :=
    Text.compare_eq_lt_iff_encode_lt.mp (hbefore found hfound _ List.mem_cons_self)
  have hmore (found : String × EntryId) (hfound : found ∈ (name, entry) :: after) :
      ¬ Text.encode found.1 < Text.encode name := by
    rw [← Text.compare_eq_lt_iff_encode_lt]
    rcases List.mem_cons.mp hfound with rfl | hfound
    · simp
    · rw [Std.OrientedCmp.gt_of_lt (hafter found hfound)]
      decide
  rw [hscope.countBelow_eq, NameTree.nameList, List.countP_map, hsplit, List.countP_append,
    List.countP_eq_length.mpr fun found hfound => by simpa using hless found hfound,
    List.countP_eq_zero.mpr fun found hfound => by simpa using hmore found hfound]
  rfl

/-- The place of an entry in key order is the number of smaller names. -/
theorem idxOf_entries {entry : EntryId} {symbol : Symbol}
    (hsymbol : scope.symbol? entry = some symbol) :
    scope.names.entries.idxOf entry = scope.countBelow symbol.name := by
  obtain ⟨before, after, hsplit⟩ :=
    List.append_of_mem (hscope.mem_toList_iff.mpr ⟨symbol, hsymbol, rfl⟩)
  have hentries : scope.names.entries = before.map (·.2) ++ entry :: after.map (·.2) := by
    rw [NameTree.entries, hsplit, List.map_append, List.map_cons]
  have hnew : entry ∉ before.map (·.2) := by
    have hnodup := hscope.nodup_entries
    rw [hentries, List.nodup_append] at hnodup
    exact fun hold => hnodup.2.2 entry hold entry List.mem_cons_self rfl
  rw [hentries, List.idxOf_append_of_notMem hnew, List.idxOf_cons_self, Nat.add_zero,
    List.length_map, hscope.length_before_eq hsplit]

/-- Each number of a symbol stands in key order once. -/
theorem perm_entries :
    scope.names.entries.Perm ((List.range scope.size).map EntryId.mk) := by
  have hnumbers : ((List.range scope.size).map EntryId.mk).Nodup := by
    rw [List.nodup_map_iff (fun _ _ h => EntryId.mk.inj h)]
    exact List.nodup_range
  rw [List.perm_ext_iff_of_nodup hscope.nodup_entries hnumbers]
  rintro ⟨number⟩
  simp [hscope.mem_entries_iff]

theorem pairwise_entries : scope.names.entries.Pairwise scope.Precedes := by
  rw [NameTree.entries, List.pairwise_map]
  apply hscope.ordered.imp_of_mem
  rintro ⟨first, entry⟩ ⟨second, later⟩ hfirst hsecond hless
  obtain ⟨symbol, hsymbol, rfl⟩ := hscope.mem_toList_iff.mp hfirst
  obtain ⟨other, hother, rfl⟩ := hscope.mem_toList_iff.mp hsecond
  exact ⟨symbol, other, hsymbol, hother, Text.compare_eq_lt_iff_encode_lt.mp hless⟩

end WellFormed

/-! ## Ranked scopes -/

section Ranked

variable (hscope : scope.Maintained) (hflattened : scope.isFlattened)

include hscope hflattened

/-- The ranks of a scope are those of the names that it has now. -/
theorem Maintained.rank?_eq {entry : EntryId} {symbol : Symbol}
    (hsymbol : scope.symbol? entry = some symbol) :
    scope.rank? entry = some ⟨scope.countBelow symbol.name⟩ := by
  have hentry : entry.val < scope.size := (Array.getElem?_eq_some_iff.mp hsymbol).1
  rw [hscope.current hflattened entry hentry, hscope.wellFormed.idxOf_entries hsymbol]

theorem Maintained.keyOrder_eq : scope.keyOrder = .ok scope.names.entries.toArray := by
  obtain ⟨order, horder⟩ := Option.isSome_iff_exists.mp hflattened
  rw [keyOrder, horder, ← hscope.wellFormed.ranked order horder]

/-- An address says which scope it is, and how many of its names are smaller. -/
theorem Maintained.addressOf?_eq (name : String) :
    scope.addressOf? name =
      (scope.search name).map fun _ => ⟨scope.index, ⟨scope.countBelow name⟩⟩ := by
  unfold addressOf?
  cases hsearch : scope.search name with
  | none => rfl
  | some entry =>
      obtain ⟨symbol, hsymbol, rfl⟩ := (hscope.wellFormed.searched name entry).mp hsearch
      simp [hscope.rank?_eq hflattened hsymbol]

end Ranked

/-- Addresses depend on nothing but the names of a scope and its number. -/
theorem Maintained.addressOf?_congr {first second : Scope} (hfirst : first.Maintained)
    (hsecond : second.Maintained) (hindex : first.index = second.index)
    (hnames : ∀ name, first.Holds name ↔ second.Holds name)
    (hrankedFirst : first.isFlattened) (hrankedSecond : second.isFlattened) (name : String) :
    first.addressOf? name = second.addressOf? name := by
  have hfound (name : String) : (first.search name).isSome = (second.search name).isSome := by
    rw [Bool.eq_iff_iff, Option.isSome_iff_exists, Option.isSome_iff_exists,
      ← hfirst.wellFormed.holds_iff, ← hsecond.wellFormed.holds_iff]
    exact hnames name
  have hlist : first.names.nameList = second.names.nameList :=
    hfirst.wellFormed.ordered.nameList_eq hsecond.wellFormed.ordered hfound
  have hbelow : first.countBelow name = second.countBelow name := by
    rw [hfirst.wellFormed.countBelow_eq, hsecond.wellFormed.countBelow_eq, hlist]
  rw [hfirst.addressOf?_eq hrankedFirst, hsecond.addressOf?_eq hrankedSecond, hindex, hbelow]
  have hhere := hfound name
  cases hsearch : first.search name <;> cases hother : second.search name <;>
    simp_all

/-- Whatever was requested of a scope, its tree is a search tree of its names, a walk
through it visits every entry once in the order of the names, ranking it takes down
this order and the number of smaller names of each, and its addresses are those of any
scope of the same number that has the same names. -/
theorem serve_keyOrder (index : ScopeIndex) (requests : List Request) :
    let scope : Scope := (serve { index } requests).2
    scope.names.IsSearchTree ∧
      (∀ name entry, (name, entry) ∈ scope.names.toList ↔
        ∃ symbol, scope.symbol? entry = some symbol ∧ symbol.name = name) ∧
      (∃ order : List EntryId,
        (∀ visited, Walk scope [] scope.names.root? visited ↔ visited = order) ∧
          order.Perm ((List.range scope.size).map EntryId.mk) ∧
          order.Pairwise scope.Precedes ∧
          ∃ flattened, scope.flatten = .ok flattened ∧
            flattened.keyOrder = .ok order.toArray ∧
            ∀ entry symbol, flattened.symbol? entry = some symbol →
              flattened.rank? entry = some ⟨scope.countBelow symbol.name⟩) ∧
      (scope.isFlattened → scope.flatten = .ok scope) ∧
      ∀ others : List Request,
        let other : Scope := (serve { index } others).2
        (∀ name, scope.Holds name ↔ other.Holds name) →
          scope.isFlattened → other.isFlattened →
            ∀ name, scope.addressOf? name = other.addressOf? name := by
  intro scope
  have hscope : scope.Maintained := (Maintained.empty index).serve requests
  have hwell := hscope.wellFormed
  obtain ⟨ranks, -, hflatten⟩ := hscope.exists_flatten
  refine ⟨hwell.ordered.isSearchTree, fun _ _ => hwell.mem_toList_iff, ?_, ?_, ?_⟩
  · refine ⟨scope.names.entries, fun _ => hwell.walk_iff, hwell.perm_entries,
      hwell.pairwise_entries, _, hflatten, ?_⟩
    have hlater := hscope.flatten hflatten
    exact ⟨hlater.keyOrder_eq rfl, fun _ _ => hlater.rank?_eq rfl⟩
  · exact hscope.flatten_of_isFlattened
  · intro others other hnames hrankedFirst hrankedSecond
    have hother : other.Maintained := (Maintained.empty index).serve others
    have hindex : scope.index = other.index := by
      rw [index_serve, index_serve]
    exact hscope.addressOf?_congr hother hindex hnames hrankedFirst hrankedSecond

end Scope
end ScopeMachine
