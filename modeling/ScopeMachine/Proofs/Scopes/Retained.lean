/-
# Symbols that are retained

Only whoever has found out something about a symbol fills it in. All other requests to
the symbol tables, creating scopes, entering and looking up names and ranking them, leave
every symbol that is there as it was declared, and at most note another line on which it
was seen.
-/

import ScopeMachine.Proofs.Scopes.Program

namespace ScopeMachine

/-- The later symbol is the same, but for the lines on which it was seen. -/
def Symbol.SeenAgain (symbol later : Symbol) : Prop :=
  later = { symbol with references := later.references }

namespace Scope

variable {scope : Scope} {entry : EntryId} {symbol : Symbol}

theorem retains_refer (hsymbol : scope.symbol? entry = some symbol) (other : EntryId)
    (context : Context) :
    ∃ later, (scope.refer other context).symbol? entry = some later ∧ symbol.SeenAgain later := by
  unfold refer
  split
  · rw [symbol?_modifySymbol, hsymbol]
    refine ⟨_, rfl, ?_⟩
    split <;> rfl
  · exact ⟨symbol, hsymbol, rfl⟩

theorem retains_lookup (hsymbol : scope.symbol? entry = some symbol) (name : String)
    (context : Context) :
    ∃ later, (scope.lookup name context).symbol? entry = some later ∧
      symbol.SeenAgain later := by
  unfold lookup
  split
  · exact retains_refer hsymbol _ context
  · exact ⟨symbol, hsymbol, rfl⟩

theorem retains_enter (hsymbol : scope.symbol? entry = some symbol) (name : String)
    (context : Context) :
    ∃ later, (scope.enter name context).symbol? entry = some later ∧ symbol.SeenAgain later := by
  cases hsearch : scope.search name with
  | some known =>
      rw [enter_of_some hsearch]
      exact retains_refer hsymbol known context
  | none =>
      refine ⟨symbol, ?_, rfl⟩
      by_cases hroom : scope.size < capacity
      · have hless := (Array.getElem?_eq_some_iff.mp hsymbol).1
        rw [symbol?, symbols_enter_of_none hsearch hroom, Array.getElem?_push,
          if_neg (Nat.ne_of_lt hless)]
        exact hsymbol
      · rw [enter_of_full hsearch (Nat.not_lt.mp hroom)]
        exact hsymbol

end Scope

namespace ScopeStore

/-- The request fills in what has been found out about a symbol. -/
def Request.FillsIn : Request → Prop
  | .define _ _ _ _ => True
  | _ => False

/-- Symbol tables that have come from others without anything filled in. -/
structure Retains (store later : ScopeStore) : Prop where
  maintained : later.Maintained
  symbols : ∀ ref symbol, store.symbol ref = .ok symbol →
    ∃ kept, later.symbol ref = .ok kept ∧ symbol.SeenAgain kept

variable {store later : ScopeStore}

theorem Retains.refl (hstore : store.Maintained) : Retains store store :=
  ⟨hstore, fun _ symbol hsymbol => ⟨symbol, hsymbol, rfl⟩⟩

theorem Retains.trans {last : ScopeStore} (hfirst : Retains store later)
    (hsecond : Retains later last) : Retains store last := by
  refine ⟨hsecond.maintained, fun ref symbol hsymbol => ?_⟩
  obtain ⟨kept, hkept, hseen⟩ := hfirst.symbols ref symbol hsymbol
  obtain ⟨again, hagain, hlater⟩ := hsecond.symbols ref kept hkept
  refine ⟨again, hagain, ?_⟩
  rw [Symbol.SeenAgain, hlater, hseen]

/-- Changing a scope that retains its symbols. -/
theorem retains_modifyScope {index : ScopeIndex} {change : Scope → Scope}
    (hmaintained : (store.modifyScope index change).Maintained)
    (hchange : ∀ (scope : Scope) entry symbol, store.scopes[index.val]? = some scope →
      scope.symbol? entry = some symbol →
        ∃ kept, (change scope).symbol? entry = some kept ∧ symbol.SeenAgain kept) :
    Retains store (store.modifyScope index change) := by
  refine ⟨hmaintained, fun ref symbol hsymbol => ?_⟩
  obtain ⟨scope, hscope, hentry⟩ := symbol_eq_ok_iff.mp hsymbol
  by_cases hindex : index.val = ref.scope.val
  · obtain ⟨kept, hkept, hseen⟩ := hchange scope ref.entry symbol (hindex ▸ hscope) hentry
    refine ⟨kept, symbol_eq_ok_iff.mpr ⟨change scope, ?_, hkept⟩, hseen⟩
    simp only [modifyScope, Array.getElem?_modify, hindex, if_true, hscope, Option.map_some]
  · refine ⟨symbol, symbol_eq_ok_iff.mpr ⟨scope, ?_, hentry⟩, rfl⟩
    simp only [modifyScope, Array.getElem?_modify, hindex, if_false, hscope]

namespace Maintained

variable (hstore : store.Maintained)

include hstore

theorem retains_create : Retains store (left (create store)) := by
  have hcreate := hstore.create_eq
  split at hcreate
  case isTrue =>
    obtain ⟨later, hdone, hmaintained, -, -, hkept⟩ := hcreate
    rw [hdone]
    exact ⟨hmaintained, fun ref symbol hsymbol => ⟨symbol, symbol_of_kept hkept hsymbol, rfl⟩⟩
  case isFalse =>
    rw [hcreate]
    exact .refl hstore

theorem retains_enter (index : ScopeIndex) (name : String) (context : Context) :
    Retains store (left (enter index name context store)) := by
  have hfollows := hstore.follows_enter index name context
  unfold ScopeStore.enter at hfollows ⊢
  split
  · exact .refl hstore
  · rename_i hscope
    simp only [hscope] at hfollows
    split
    · exact .refl hstore
    · rename_i hadmission
      simp only [hadmission] at hfollows
      exact retains_modifyScope hfollows.maintained fun scope entry symbol _ hsymbol =>
        Scope.retains_enter hsymbol name context

theorem retains_lookup (index : ScopeIndex) (name : String) (context : Context) :
    Retains store (left (lookup index name context store)) := by
  have hfollows := hstore.follows_lookup index name context
  unfold ScopeStore.lookup at hfollows ⊢
  split
  · exact .refl hstore
  · rename_i hscope
    simp only [hscope] at hfollows
    exact retains_modifyScope hfollows.maintained fun scope entry symbol _ hsymbol =>
      Scope.retains_lookup hsymbol name context

theorem retains_flatten (index : ScopeIndex) : Retains store (left (flatten index store)) := by
  have hfollows := hstore.follows_flatten index
  unfold ScopeStore.flatten at hfollows ⊢
  split
  · exact .refl hstore
  · rename_i flattened hflattened
    simp only [hflattened] at hfollows
    apply retains_modifyScope hfollows.maintained
    intro scope entry symbol hscope hsymbol
    obtain ⟨ranks, -, hflatten⟩ := (hstore _ scope hscope).2.exists_flatten
    simp only [ScopeStore.scope, hscope, bind, Except.bind, hflatten] at hflattened
    cases hflattened
    exact ⟨symbol, hsymbol, rfl⟩

/-- A request that fills in nothing retains every symbol. -/
theorem retains_after {request : Request} (hrequest : ¬ request.FillsIn) :
    Retains store (request.after store) := by
  cases request with
  | create => exact hstore.retains_create
  | enter index name context => exact hstore.retains_enter index name context
  | lookup index name context => exact hstore.retains_lookup index name context
  | define ref value type defn => exact absurd trivial hrequest
  | flatten index => exact hstore.retains_flatten index
  | flattenAll =>
      exact left_forM .refl .trans (·.maintained)
        (fun number _ hmaintained => hmaintained.retains_flatten ⟨number⟩)
        (List.range store.size) hstore

end Maintained

end ScopeStore

end ScopeMachine
