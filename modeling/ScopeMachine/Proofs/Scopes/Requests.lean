/-
# Requests to a scope

A scope is asked to enter names, to look them up with or without a record, and to
rank them. Requests are data here, so that sequences of them can be spoken of, with
the answers that they get. Whatever is requested, a scope stays well formed and
within its capacity.

Ranking writes down two things apart, the entries in key order and the rank of every
symbol, and a new name has to take back both. So it is an invariant of requests that
they agree: without an order there are no ranks, and with one the rank of a symbol is
its place among the names that the scope has now.
-/

import Mathlib.Data.List.Basic
import ScopeMachine.Proofs.Scopes.Reachable

namespace ScopeMachine.Scope

/-- What a scope can be asked to do, on some line and with some settings. -/
inductive Request where
  | enter (name : String) (context : Context)
  | lookup (name : String) (context : Context)
  | search (name : String)
  | flatten
deriving DecidableEq

/-- The answer to a request: an entry, none, or a refusal. -/
abbrev Answer := Except ScopeError (Option EntryId)

namespace Request

/-- The answer of a scope. -/
def answer (scope : Scope) : Request → Answer
  | .enter name _ => (scope.admission name).map some
  | .lookup name _ => .ok (scope.search name)
  | .search name => .ok (scope.search name)
  | .flatten => scope.flatten.map fun _ => none

/-- The scope after a request. -/
def after (scope : Scope) : Request → Scope
  | .enter name context => scope.enter name context
  | .lookup name context => scope.lookup name context
  | .search _ => scope
  | .flatten =>
    match scope.flatten with
    | .ok flattened => flattened
    | .error _ => scope

end Request

/-- Requests one after the other: each with its answer, and the scope in the end. -/
def serve (scope : Scope) : List Request → List (Request × Answer) × Scope
  | [] => ([], scope)
  | request :: rest =>
    let served := serve (request.after scope) rest
    ((request, request.answer scope) :: served.1, served.2)

/-- What requests keep of a scope. -/
structure Maintained (scope : Scope) : Prop where
  wellFormed : scope.WellFormed
  bounded : scope.size ≤ capacity
  seated : scope.ranks.size = scope.size
  void : scope.order = none → ∀ entry, scope.rank? entry = none
  current : scope.order.isSome → ∀ entry : EntryId, entry.val < scope.size →
    scope.rank? entry = some ⟨scope.names.entries.idxOf entry⟩

variable {scope : Scope} {name : String} {entry : EntryId} {context : Context}

/-! ## References change nothing but lines -/

@[simp]
theorem names_refer : (scope.refer entry context).names = scope.names := by
  unfold refer
  split <;> rfl

@[simp]
theorem order_refer : (scope.refer entry context).order = scope.order := by
  unfold refer
  split <;> rfl

@[simp]
theorem ranks_refer : (scope.refer entry context).ranks = scope.ranks := by
  unfold refer
  split <;> rfl

@[simp]
theorem rank?_refer (other : EntryId) :
    (scope.refer entry context).rank? other = scope.rank? other := by
  rw [rank?, rank?, ranks_refer]

@[simp]
theorem size_refer : (scope.refer entry context).size = scope.size := by
  unfold refer
  split
  · simp [size, modifySymbol]
  · rfl

/-! ## Entering a name that is there, and one that is not -/

theorem admission_of_some (hsearch : scope.search name = some entry) :
    scope.admission name = .ok entry := by
  rw [admission, hsearch]

/-- A new name gets the next number if there is room for it. -/
theorem admission_of_none (hsearch : scope.search name = none) :
    scope.admission name =
      if scope.size < capacity then .ok ⟨scope.size⟩
      else .error (.scopeFull scope.index capacity) := by
  rw [admission, hsearch, newEntry?_eq]
  by_cases hroom : scope.size < capacity
  · rw [if_pos hroom, if_pos hroom]
  · rw [if_neg hroom, if_neg hroom]

theorem enter_of_some (hsearch : scope.search name = some entry) :
    scope.enter name context = scope.refer entry context := by
  rw [enter, hsearch]

theorem enter_of_none (hsearch : scope.search name = none) (hroom : scope.size < capacity) :
    scope.enter name context =
      (scope.push name ⟨scope.size⟩ (scope.newSymbol name context)).unranked := by
  rw [enter, hsearch, newEntry?_eq, if_pos hroom]

theorem symbols_enter_of_none (hsearch : scope.search name = none)
    (hroom : scope.size < capacity) :
    (scope.enter name context).symbols = scope.symbols.push (scope.newSymbol name context) := by
  rw [enter_of_none hsearch hroom, symbols_unranked]
  rfl

theorem size_enter_of_none (hsearch : scope.search name = none) (hroom : scope.size < capacity) :
    (scope.enter name context).size = scope.size + 1 := by
  rw [size, symbols_enter_of_none hsearch hroom, Array.size_push, size]

theorem enter_of_full (hsearch : scope.search name = none) (hfull : capacity ≤ scope.size) :
    scope.enter name context = scope := by
  rw [enter, hsearch, newEntry?_eq, if_neg (Nat.not_lt.mpr hfull)]

/-! ## The entries of the tree -/

namespace WellFormed

variable (hscope : scope.WellFormed)

include hscope

/-- The names in the tree are those of the symbols, each with its entry. -/
theorem mem_toList_iff : (name, entry) ∈ scope.names.toList ↔
    ∃ symbol, scope.symbol? entry = some symbol ∧ symbol.name = name := by
  rw [← hscope.ordered.find?_eq_some_iff]
  exact hscope.searched name entry

theorem mem_entries_iff : entry ∈ scope.names.entries ↔ entry.val < scope.size := by
  simp only [NameTree.entries, List.mem_map, Prod.exists, exists_eq_right,
    hscope.mem_toList_iff]
  constructor
  · rintro ⟨_, symbol, hsymbol, -⟩
    exact (Array.getElem?_eq_some_iff.mp hsymbol).1
  · intro hless
    exact ⟨_, scope.symbols[entry.val], Array.getElem?_eq_getElem hless, rfl⟩

theorem nodup_entries : scope.names.entries.Nodup := by
  rw [NameTree.entries, List.Nodup, List.pairwise_map]
  apply hscope.ordered.imp_of_mem
  rintro ⟨first, entry⟩ ⟨second, _⟩ hfirst hsecond hless rfl
  obtain ⟨symbol, hsymbol, rfl⟩ := hscope.mem_toList_iff.mp hfirst
  obtain ⟨other, hother, rfl⟩ := hscope.mem_toList_iff.mp hsecond
  obtain rfl : symbol = other := Option.some.inj (hsymbol.symm.trans hother)
  have hself : compare symbol.name symbol.name = .lt := hless
  simp at hself

theorem length_entries : scope.names.entries.length = scope.size := by
  rw [NameTree.entries, List.length_map, hscope.counted]

end WellFormed

/-! ## Writing down ranks -/

theorem ofNat?_of_lt {n : Nat} (hless : n < Rank.capacity) : Rank.ofNat? n = some ⟨n⟩ :=
  if_pos hless

/-- Ranks are written down for the entries that are listed, and others are kept. -/
theorem exists_rankFrom {entries : List EntryId} (hnodup : entries.Nodup) {next : Nat}
    (hroom : next + entries.length ≤ Rank.capacity) (ranks : Array (Option Rank)) :
    ∃ later, rankFrom next entries ranks = some later ∧ later.size = ranks.size ∧
      ∀ entry : EntryId, entry.val < ranks.size → later[entry.val]? =
        if entry ∈ entries then some (some ⟨next + entries.idxOf entry⟩)
        else ranks[entry.val]? := by
  induction entries generalizing next ranks with
  | nil => exact ⟨ranks, rfl, rfl, by simp⟩
  | cons first rest ih =>
      rw [List.length_cons] at hroom
      obtain ⟨hfirst, hrest⟩ := List.nodup_cons.mp hnodup
      have hfewer : next + 1 + rest.length ≤ Rank.capacity := by omega
      obtain ⟨later, hlater, hsize, hranks⟩ :=
        ih hrest hfewer (ranks.setIfInBounds first.val (some ⟨next⟩))
      refine ⟨later, ?_, by simpa using hsize, ?_⟩
      · rw [rankFrom, ofNat?_of_lt (by omega)]
        exact hlater
      · intro entry hentry
        rw [hranks entry (by simpa using hentry), Array.getElem?_setIfInBounds]
        by_cases hsame : entry = first
        · subst hsame
          simp [hfirst, hentry]
        · have hother : first ≠ entry := Ne.symm hsame
          have hval : first.val ≠ entry.val := by
            intro heq
            exact hother (congrArg EntryId.mk heq)
          simp only [List.mem_cons, hsame, false_or, hval, if_false,
            List.idxOf_cons_ne _ hother]
          split
          · congr 3
            omega
          · rfl

/-! ## What requests keep -/

namespace Maintained

variable (hscope : scope.Maintained)

include hscope

/-- Ranking a scope goes through: it writes down the key order, and for every symbol its
place there. -/
theorem exists_ranks : ∃ ranks, rankFrom 0 scope.names.entries scope.ranks = some ranks ∧
    ranks.size = scope.size ∧ ∀ entry : EntryId, entry.val < scope.size →
      ranks[entry.val]? = some (some ⟨scope.names.entries.idxOf entry⟩) := by
  have hroom : 0 + scope.names.entries.length ≤ Rank.capacity := by
    rw [Nat.zero_add, hscope.wellFormed.length_entries]
    exact hscope.bounded
  obtain ⟨ranks, hranked, hsize, hranks⟩ :=
    exists_rankFrom hscope.wellFormed.nodup_entries hroom scope.ranks
  refine ⟨ranks, hranked, hsize.trans hscope.seated, ?_⟩
  intro entry hentry
  rw [hranks entry (hscope.seated ▸ hentry),
    if_pos (hscope.wellFormed.mem_entries_iff.mpr hentry), Nat.zero_add]

theorem refer (entry : EntryId) (context : Context) : (scope.refer entry context).Maintained where
  wellFormed := hscope.wellFormed.refer entry context
  bounded := by
    rw [size_refer]
    exact hscope.bounded
  seated := by
    rw [ranks_refer, size_refer]
    exact hscope.seated
  void hnone other := by
    rw [rank?_refer]
    exact hscope.void (order_refer ▸ hnone) other
  current hsome other hother := by
    rw [rank?_refer, names_refer]
    exact hscope.current (order_refer ▸ hsome) other (size_refer ▸ hother)

theorem lookup (name : String) (context : Context) :
    (scope.lookup name context).Maintained := by
  unfold Scope.lookup
  split
  · exact hscope.refer _ context
  · exact hscope

/-- Without an order, a new symbol has no rank, as no other has. -/
theorem rank?_push (hnone : scope.order = none) (name : String) (new other : EntryId)
    (symbol : Symbol) : (scope.push name new symbol).rank? other = none := by
  have hother := hscope.void hnone other
  rw [rank?] at hother ⊢
  simp only [push, Array.getElem?_push]
  split
  · rfl
  · exact hother

/-- A new name leaves neither the order nor any rank. -/
theorem enter_void (hsearch : scope.search name = none) (hroom : scope.size < capacity)
    (context : Context) :
    (scope.enter name context).order = none ∧
      ∀ other, (scope.enter name context).rank? other = none := by
  rw [enter_of_none hsearch hroom]
  exact ⟨order_unranked _, fun other => rank?_unranked _ fun hnone =>
    hscope.rank?_push hnone name _ other _⟩

theorem enter (name : String) (context : Context) : (scope.enter name context).Maintained := by
  cases hsearch : scope.search name with
  | some entry =>
      rw [enter_of_some hsearch]
      exact hscope.refer entry context
  | none =>
      by_cases hroom : scope.size < capacity
      · obtain ⟨horder, hranks⟩ := hscope.enter_void hsearch hroom context
        refine ⟨hscope.wellFormed.enter name context, ?_, ?_, fun _ => hranks, ?_⟩
        · rw [size_enter_of_none hsearch hroom]
          exact hroom
        · rw [enter_of_none hsearch hroom]
          simpa [size, push] using hscope.seated
        · simp [horder]
      · rw [enter_of_full hsearch (Nat.not_lt.mp hroom)]
        exact hscope

/-- Ranking a scope goes through, and changes nothing but the order and the ranks. -/
theorem exists_flatten : ∃ ranks, rankFrom 0 scope.names.entries scope.ranks = some ranks ∧
    scope.flatten =
      .ok { scope with ranks := ranks, order := some scope.names.entries.toArray } := by
  obtain ⟨ranks, hranked, -, -⟩ := hscope.exists_ranks
  exact ⟨ranks, hranked, by rw [Scope.flatten, hranked]⟩

theorem flatten {flattened : Scope} (hflattened : scope.flatten = .ok flattened) :
    flattened.Maintained := by
  have hwell := hscope.wellFormed.flatten hflattened
  obtain ⟨ranks, hranked, hsize, hranks⟩ := hscope.exists_ranks
  rw [Scope.flatten, hranked] at hflattened
  cases hflattened
  refine ⟨hwell, hscope.bounded, hsize, nofun, ?_⟩
  intro _ entry hentry
  rw [rank?, hranks entry hentry]
  rfl

/-- Ranking again writes down the same. -/
theorem flatten_of_isFlattened (hflattened : scope.isFlattened) : scope.flatten = .ok scope := by
  obtain ⟨order, horder⟩ := Option.isSome_iff_exists.mp hflattened
  have hentries := hscope.wellFormed.ranked order horder
  obtain ⟨ranks, hranked, hsize, hranks⟩ := hscope.exists_ranks
  have hsame : ranks = scope.ranks := by
    apply Array.ext_getElem?
    intro number
    by_cases hnumber : number < scope.size
    · have hrank := hscope.current hflattened ⟨number⟩ hnumber
      rw [hranks ⟨number⟩ hnumber]
      exact (Option.join_eq_some_iff.mp hrank).symm
    · rw [Array.getElem?_eq_none (by omega),
        Array.getElem?_eq_none (by rw [hscope.seated]; omega)]
  rw [Scope.flatten, hranked, hsame, ← hentries, Array.toArray_toList, ← horder]

theorem after (request : Request) : (request.after scope).Maintained := by
  cases request with
  | enter name context => exact hscope.enter name context
  | lookup name context => exact hscope.lookup name context
  | search name => exact hscope
  | flatten =>
      obtain ⟨ranks, -, hflatten⟩ := hscope.exists_flatten
      have hlater := hscope.flatten hflatten
      simpa only [Request.after, hflatten] using hlater

theorem serve (requests : List Request) : (scope.serve requests).2.Maintained := by
  induction requests generalizing scope with
  | nil => exact hscope
  | cons request rest ih => exact ih (hscope.after request)

end Maintained

/-- A new scope is maintained. -/
theorem Maintained.empty (index : ScopeIndex) : Maintained { index } where
  wellFormed := .empty index
  bounded := Nat.zero_le _
  seated := rfl
  void _ _ := rfl
  current := nofun

@[simp]
theorem index_after (request : Request) : (request.after scope).index = scope.index := by
  cases request with
  | enter name context => exact index_enter name context
  | lookup name context => exact index_lookup name context
  | search name => rfl
  | flatten =>
      unfold Request.after
      cases hflatten : scope.flatten with
      | ok flattened => exact index_flatten hflatten
      | error refusal => rfl

@[simp]
theorem index_serve (requests : List Request) : (scope.serve requests).2.index = scope.index := by
  induction requests generalizing scope with
  | nil => rfl
  | cons request rest ih => rw [serve, ih, index_after]

end ScopeMachine.Scope
