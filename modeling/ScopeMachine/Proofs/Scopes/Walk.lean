/-
# Following the links of a scope

The links of a scope lead from an entry to those right below it, and what stands behind
an entry is its symbol. A name is found by a descent along them. All entries are visited
in key order by a walk that leaves entries on the way down pending, so that it needs no
call stack of its own, however unbalanced the tree is. Either goes on only where the
symbol behind a link is there. Still both come to an end: the descent where the search
for the name ends, and the walk after exactly the entries of the tree from left to right.
-/

import ScopeMachine.Proofs.Scopes.Requests

namespace ScopeMachine.Scope

/-- The entries right below an entry, of smaller and of greater names. -/
def below (scope : Scope) (entry : EntryId) : Option EntryId × Option EntryId :=
  match scope.symbol? entry with
  | some symbol => scope.names.children symbol.name
  | none => (none, none)

/-- A walk with some entries pending, the innermost first, and an entry to go to next
visits a list of entries until it ends. -/
inductive Walk (scope : Scope) : (pending : List EntryId) → (next : Option EntryId) →
    (visited : List EntryId) → Prop
  /-- An entry is left pending, and the smaller names come next. -/
  | down {pending visited : List EntryId} {entry : EntryId} (hthere : entry.val < scope.size)
      (hsmaller : Walk scope (entry :: pending) (scope.below entry).1 visited) :
      Walk scope pending (some entry) visited
  /-- The innermost pending entry is visited, and the greater names come next. -/
  | visit {pending visited : List EntryId} {entry : EntryId} (hthere : entry.val < scope.size)
      (hgreater : Walk scope pending (scope.below entry).2 visited) :
      Walk scope (entry :: pending) none (entry :: visited)
  /-- Nothing is pending. -/
  | done : Walk scope [] none []

/-- A descent in search of a name, from an entry that is to be looked at next, ends at an
entry or nowhere. -/
inductive Descent (scope : Scope) (name : String) : (next found : Option EntryId) → Prop
  /-- No link leads on. -/
  | missing : Descent scope name none none
  /-- The symbol has the name. -/
  | found {entry : EntryId} {symbol : Symbol} (hsymbol : scope.symbol? entry = some symbol)
      (hname : compare name symbol.name = .eq) : Descent scope name (some entry) (some entry)
  /-- The symbol has a greater name, and the smaller ones come next. -/
  | smaller {entry : EntryId} {symbol : Symbol} {found : Option EntryId}
      (hsymbol : scope.symbol? entry = some symbol) (hname : compare name symbol.name = .lt)
      (hrest : Descent scope name (scope.below entry).1 found) :
      Descent scope name (some entry) found
  /-- The symbol has a smaller name, and the greater ones come next. -/
  | greater {entry : EntryId} {symbol : Symbol} {found : Option EntryId}
      (hsymbol : scope.symbol? entry = some symbol) (hname : compare name symbol.name = .gt)
      (hrest : Descent scope name (scope.below entry).2 found) :
      Descent scope name (some entry) found

/-- The links of a scope lead through a tree, with the symbol of each name behind it. -/
def Linked (scope : Scope) : NameTree → Prop
  | .leaf => True
  | .node smaller name entry greater =>
    (∃ symbol, scope.symbol? entry = some symbol ∧ symbol.name = name) ∧
      scope.below entry = (smaller.root?, greater.root?) ∧
      scope.Linked smaller ∧ scope.Linked greater

variable {scope : Scope}

/-- A walk can visit only one list. -/
theorem Walk.unique {pending first second : List EntryId} {next : Option EntryId}
    (hfirst : Walk scope pending next first) (hsecond : Walk scope pending next second) :
    first = second := by
  induction hfirst generalizing second with
  | down hthere hsmaller ih =>
      cases hsecond with
      | down _ hother => exact ih hother
  | visit hthere hgreater ih =>
      cases hsecond with
      | visit _ hother => exact congrArg _ (ih hother)
  | done =>
      cases hsecond with
      | done => rfl

/-- A walk goes through a whole tree before it takes up what was pending. -/
theorem Linked.walk {tree : NameTree} (hlinked : scope.Linked tree)
    {pending visited : List EntryId} (hafter : Walk scope pending none visited) :
    Walk scope pending tree.root? (tree.entries ++ visited) := by
  induction tree generalizing pending visited with
  | leaf => exact hafter
  | node smaller name entry greater ihsmaller ihgreater =>
      obtain ⟨⟨symbol, hsymbol, -⟩, hbelow, hsmaller, hgreater⟩ := hlinked
      have hthere : entry.val < scope.size := (Array.getElem?_eq_some_iff.mp hsymbol).1
      have hvisit : Walk scope (entry :: pending) none (entry :: (greater.entries ++ visited)) := by
        apply Walk.visit hthere
        rw [hbelow]
        exact ihgreater hgreater hafter
      apply Walk.down hthere
      rw [hbelow]
      simpa [NameTree.entries] using ihsmaller hsmaller hvisit

/-- A descent can end at one place only. -/
theorem Descent.unique {name : String} {next first second : Option EntryId}
    (hfirst : Descent scope name next first) (hsecond : Descent scope name next second) :
    first = second := by
  induction hfirst generalizing second with
  | missing =>
      cases hsecond with
      | missing => rfl
  | found hsymbol hname =>
      cases hsecond with
      | found => rfl
      | smaller hother hless | greater hother hless =>
          cases hsymbol.symm.trans hother
          cases hname.symm.trans hless
  | smaller hsymbol hname hrest ih =>
      cases hsecond with
      | smaller _ _ hother => exact ih hother
      | found hother hsame | greater hother hsame =>
          cases hsymbol.symm.trans hother
          cases hname.symm.trans hsame
  | greater hsymbol hname hrest ih =>
      cases hsecond with
      | greater _ _ hother => exact ih hother
      | found hother hsame | smaller hother hsame =>
          cases hsymbol.symm.trans hother
          cases hname.symm.trans hsame

/-- A descent through a tree ends where the search for the name does. -/
theorem Linked.descent {tree : NameTree} (hlinked : scope.Linked tree) (wanted : String) :
    Descent scope wanted tree.root? (tree.find? wanted) := by
  induction tree with
  | leaf => exact .missing
  | node smaller name entry greater ihsmaller ihgreater =>
      obtain ⟨⟨symbol, hsymbol, rfl⟩, hbelow, hsmaller, hgreater⟩ := hlinked
      rw [NameTree.find?]
      cases hname : compare wanted symbol.name with
      | lt =>
          apply Descent.smaller hsymbol hname
          rw [hbelow]
          exact ihsmaller hsmaller
      | eq => exact .found hsymbol hname
      | gt =>
          apply Descent.greater hsymbol hname
          rw [hbelow]
          exact ihgreater hgreater

/-- Where the symbols have the names of an ordered tree, and the links agree with its own,
they lead through it. -/
theorem linked_of_children {tree : NameTree} (hordered : tree.Ordered)
    (hnames : ∀ found ∈ tree.toList, ∃ symbol, scope.symbol? found.2 = some symbol ∧
      symbol.name = found.1)
    (hchildren : ∀ found ∈ tree.toList, scope.below found.2 = tree.children found.1) :
    scope.Linked tree := by
  induction tree with
  | leaf => trivial
  | node smaller name entry greater ihsmaller ihgreater =>
      obtain ⟨hsmaller, hgreater, hless, hmore⟩ := NameTree.ordered_node_iff.mp hordered
      simp only [NameTree.toList_node, List.forall_mem_append, List.forall_mem_cons]
        at hnames hchildren
      obtain ⟨hnamesSmaller, hsymbol, hnamesGreater⟩ := hnames
      obtain ⟨hinSmaller, hhere, hinGreater⟩ := hchildren
      refine ⟨hsymbol, ?_, ihsmaller hsmaller hnamesSmaller ?_, ihgreater hgreater hnamesGreater ?_⟩
      · simpa [NameTree.children] using hhere
      · intro found hfound
        rw [hinSmaller found hfound, NameTree.children, hless found hfound]
      · intro found hfound
        rw [hinGreater found hfound, NameTree.children,
          Std.OrientedCmp.gt_of_lt (hmore found hfound)]

theorem WellFormed.linked (hscope : scope.WellFormed) : scope.Linked scope.names := by
  apply linked_of_children hscope.ordered
  · exact fun found hfound => hscope.mem_toList_iff.mp hfound
  · rintro ⟨name, entry⟩ hfound
    obtain ⟨symbol, hsymbol, rfl⟩ := hscope.mem_toList_iff.mp hfound
    rw [below, hsymbol]

/-- From the root, a descent ends where the search for the name does. -/
theorem WellFormed.descent_iff (hscope : scope.WellFormed) {name : String}
    {found : Option EntryId} :
    Descent scope name scope.names.root? found ↔ found = scope.search name := by
  have hdescent := hscope.linked.descent name
  constructor
  · exact fun hfound => hfound.unique hdescent
  · rintro rfl
    exact hdescent

/-- From the root, a walk visits the entries of the tree from left to right and ends. -/
theorem WellFormed.walk_iff (hscope : scope.WellFormed) {visited : List EntryId} :
    Walk scope [] scope.names.root? visited ↔ visited = scope.names.entries := by
  have hlinked := hscope.linked
  have hwalk : Walk scope [] scope.names.root? scope.names.entries := by
    simpa using hlinked.walk .done
  constructor
  · exact fun hvisited => hvisited.unique hwalk
  · rintro rfl
    exact hwalk

end ScopeMachine.Scope
