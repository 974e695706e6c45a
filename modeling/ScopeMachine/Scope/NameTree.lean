/-
# Search trees of names

The names of a scope stand in a binary search tree that is never rebalanced, so
its shape tells the order in which they were entered. Every name carries the
number of its entry. Names are compared by their code points, which is also the
order of their bytes in UTF-8.
-/

import ScopeMachine.Scope.Address

namespace ScopeMachine

/-- A search tree from names to entries. -/
inductive NameTree where
  /-- No name. -/
  | leaf
  /-- The smaller names, a name with its entry, and the greater names. -/
  | node (smaller : NameTree) (name : String) (entry : EntryId) (greater : NameTree)
deriving DecidableEq, Inhabited

namespace NameTree

/-- The entry at the root. -/
def root? : NameTree → Option EntryId
  | .leaf => none
  | .node _ _ entry _ => some entry

/-- The entry of a name, by ordered descent. -/
def find? (tree : NameTree) (wanted : String) : Option EntryId :=
  match tree with
  | .leaf => none
  | .node smaller name entry greater =>
    match compare wanted name with
    | .lt => smaller.find? wanted
    | .eq => some entry
    | .gt => greater.find? wanted

/-- Hang a new name where the search for it ends. A name that is there already
keeps its entry. -/
def insert (tree : NameTree) (added : String) (number : EntryId) : NameTree :=
  match tree with
  | .leaf => .node .leaf added number .leaf
  | .node smaller name entry greater =>
    match compare added name with
    | .lt => .node (smaller.insert added number) name entry greater
    | .eq => .node smaller name entry greater
    | .gt => .node smaller name entry (greater.insert added number)

/-- The entries right below a name, on the side of the smaller and of the greater
names. -/
def children (tree : NameTree) (wanted : String) : Option EntryId × Option EntryId :=
  match tree with
  | .leaf => (none, none)
  | .node smaller name _ greater =>
    match compare wanted name with
    | .lt => smaller.children wanted
    | .eq => (smaller.root?, greater.root?)
    | .gt => greater.children wanted

/-- The names with their entries from left to right, in front of `after`. -/
def listBefore (tree : NameTree) (after : List (String × EntryId)) : List (String × EntryId) :=
  match tree with
  | .leaf => after
  | .node smaller name entry greater =>
    smaller.listBefore ((name, entry) :: greater.listBefore after)

/-- The names with their entries from left to right. -/
def toList (tree : NameTree) : List (String × EntryId) :=
  tree.listBefore []

/-- The entries from left to right. -/
def entries (tree : NameTree) : List EntryId :=
  tree.toList.map (·.2)

/-- What a list is put in front of does not change it. -/
theorem listBefore_eq (tree : NameTree) (after : List (String × EntryId)) :
    tree.listBefore after = tree.toList ++ after := by
  induction tree generalizing after with
  | leaf => rfl
  | node smaller name entry greater ihsmaller ihgreater =>
    simp only [toList, listBefore]
    rw [ihsmaller, ihgreater, ihsmaller ((name, entry) :: greater.listBefore []),
      ihgreater []]
    simp

@[simp]
theorem toList_leaf : NameTree.leaf.toList = [] := rfl

@[simp]
theorem toList_node (smaller : NameTree) (name : String) (entry : EntryId)
    (greater : NameTree) :
    (NameTree.node smaller name entry greater).toList =
      smaller.toList ++ (name, entry) :: greater.toList := by
  rw [toList, listBefore, listBefore_eq, ← toList]

end NameTree

end ScopeMachine
