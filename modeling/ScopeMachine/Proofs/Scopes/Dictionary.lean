/-
# A scope is a dictionary in the order of entry

To its users a scope is a list of distinct names in the order in which they were
first entered, each with the lines on which it was seen. The list can be read off
the log of what was requested and answered, so nothing else of the past matters:
not the shape of the search tree, and not when the scope was ranked.
-/

import Mathlib.Data.List.Induction
import Mathlib.Tactic.SplitIfs
import ScopeMachine.Proofs.Scopes.Requests

namespace ScopeMachine.Scope

/-- What was requested of a scope and answered, the oldest first. -/
abbrev Log := List (Request × Answer)

namespace Log

/-- The name that was entered. -/
def entered? : Request × Answer → Option String
  | (.enter name _, .ok _) => some name
  | _ => none

/-- The names that were entered, in the order of their first entry. -/
def names (log : Log) : List String :=
  (log.filterMap entered?).eraseDups

/-- The name that was entered or found, with the context in which it was. -/
def seen? : Request × Answer → Option (String × Context)
  | (.enter name context, .ok _) => some (name, context)
  | (.lookup name context, .ok (some _)) => some (name, context)
  | _ => none

/-- The line on which a name was seen, if it was and such lines are recorded. -/
def lineOf? (name : String) (exchange : Request × Answer) : Option Nat :=
  match seen? exchange with
  | some (seen, context) =>
    if seen = name ∧ context.recordsReferences then some context.line else none
  | none => none

/-- The lines on which a name was seen while such lines were recorded. -/
def lines (log : Log) (name : String) : List Nat :=
  log.filterMap (lineOf? name)

end Log

/-- What a list of names answers: the place of a name, which for a new name is the
end of the list unless there is no room. -/
def Request.answerFrom (index : ScopeIndex) (names : List String) : Request → Answer
  | .enter name _ =>
    match names.idxOf? name with
    | some place => .ok (some ⟨place⟩)
    | none =>
      if names.length < capacity then .ok (some ⟨names.length⟩)
      else .error (.scopeFull index capacity)
  | .lookup name _ => .ok ((names.idxOf? name).map EntryId.mk)
  | .search name => .ok ((names.idxOf? name).map EntryId.mk)
  | .flatten => .ok none

/-- The symbols of a scope are what its log says. -/
structure Recounts (log : Log) (scope : Scope) : Prop where
  names : ∀ entry, (scope.symbol? entry).map Symbol.name = log.names[entry.val]?
  lines : ∀ entry symbol, scope.symbol? entry = some symbol →
    symbol.references.toList = log.lines symbol.name
  unseen : ∀ name, name ∉ log.names → log.lines name = []

variable {scope : Scope} {log : Log} {name : String} {entry : EntryId} {context : Context}

/-! ## The log after another exchange -/

namespace Log

theorem names_concat (log : Log) (exchange : Request × Answer) :
    names (log ++ [exchange]) = match entered? exchange with
      | some name => if name ∈ log.names then log.names else log.names ++ [name]
      | none => log.names := by
  have hmem (name : String) : name ∈ log.filterMap entered? ↔ name ∈ log.names :=
    List.mem_eraseDups.symm
  rw [names, List.filterMap_append, List.eraseDups_append]
  cases hentered : entered? exchange with
  | none => simp [hentered, List.removeAll, names]
  | some name =>
      by_cases hthere : name ∈ log.names
      · have hold := (hmem name).mpr hthere
        simp [hentered, hold, List.removeAll, names]
      · have hnew := (hmem name).not.mpr hthere
        simp [hentered, hnew, List.removeAll, names, List.eraseDups_cons]

/-- Names keep their places in the list. -/
theorem names_prefix (log more : Log) : log.names <+: names (log ++ more) := by
  rw [names, names, List.filterMap_append, List.eraseDups_append]
  exact List.prefix_append _ _

/-- A name that is seen gets the line, if lines are recorded. -/
theorem lines_concat_of_seen (log : Log) {exchange : Request × Answer}
    (hseen : seen? exchange = some (name, context)) (other : String) :
    lines (log ++ [exchange]) other = log.lines other ++
      (if name = other ∧ context.recordsReferences then [context.line] else []) := by
  have hline : lineOf? other exchange =
      if name = other ∧ context.recordsReferences then some context.line else none := by
    rw [lineOf?, hseen]
  rw [lines, List.filterMap_append, lines, List.filterMap_cons, hline]
  split_ifs <;> rfl

theorem lines_concat_of_unseen (log : Log) {exchange : Request × Answer}
    (hseen : seen? exchange = none) (other : String) :
    lines (log ++ [exchange]) other = log.lines other := by
  simp [lines, lineOf?, hseen]

theorem nodup_names (log : Log) : log.names.Nodup := by
  induction log using List.reverseRecOn with
  | nil => exact .nil
  | append_singleton log exchange ih =>
      rw [names_concat]
      split
      · split
        · exact ih
        · rename_i hnew
          exact List.nodup_append.mpr ⟨ih, List.nodup_singleton _, by
            intro other hother found hfound
            rw [List.mem_singleton.mp hfound]
            rintro rfl
            exact hnew hother⟩
      · exact ih

end Log

/-! ## What the log says of the symbols -/

namespace Recounts

variable (hrecounts : Recounts log scope)

include hrecounts

/-- The names of the symbols are those in the log, in the same order. -/
theorem map_name_eq : scope.symbols.toList.map Symbol.name = log.names := by
  apply List.ext_getElem?
  intro number
  rw [List.getElem?_map, Array.getElem?_toList]
  exact hrecounts.names ⟨number⟩

theorem size_eq : scope.size = log.names.length := by
  rw [← hrecounts.map_name_eq, List.length_map]
  rfl

theorem search_eq_some_iff (hwell : scope.WellFormed) :
    scope.search name = some entry ↔ log.names[entry.val]? = some name := by
  rw [hwell.searched, ← hrecounts.names, Option.map_eq_some_iff]

/-- The search for a name finds its place in the list. -/
theorem search_eq (hwell : scope.WellFormed) (name : String) :
    scope.search name = (log.names.idxOf? name).map EntryId.mk := by
  cases hplace : log.names.idxOf? name with
  | none =>
      rw [List.idxOf?_eq_none_iff] at hplace
      rw [Option.map_none, Option.eq_none_iff_forall_ne_some]
      intro entry hsearch
      rw [hrecounts.search_eq_some_iff hwell] at hsearch
      exact hplace (List.mem_of_getElem? hsearch)
  | some place =>
      obtain ⟨hless, hname, -⟩ := List.idxOf?_eq_some_iff.mp hplace
      rw [Option.map_some, hrecounts.search_eq_some_iff hwell, List.getElem?_eq_getElem hless,
        hname]

/-- A request that sees no name and keeps the symbols adds nothing. -/
theorem quiet {later : Scope} (hsymbols : later.symbols = scope.symbols)
    {exchange : Request × Answer} (hentered : Log.entered? exchange = none)
    (hseen : Log.seen? exchange = none) : Recounts (log ++ [exchange]) later := by
  have hnames : Log.names (log ++ [exchange]) = log.names := by
    rw [Log.names_concat, hentered]
  have hlines := log.lines_concat_of_unseen hseen
  refine ⟨?_, ?_, ?_⟩
  · intro entry
    rw [hnames, symbol?, hsymbols]
    exact hrecounts.names entry
  · intro entry symbol hsymbol
    rw [symbol?, hsymbols] at hsymbol
    rw [hlines]
    exact hrecounts.lines entry symbol hsymbol
  · intro name hname
    rw [hnames] at hname
    rw [hlines]
    exact hrecounts.unseen name hname

/-- A request that sees a name which is there adds a line to it, if lines are
recorded. -/
theorem refer (hentry : log.names[entry.val]? = some name) {exchange : Request × Answer}
    (hnames : Log.names (log ++ [exchange]) = log.names)
    (hseen : Log.seen? exchange = some (name, context)) :
    Recounts (log ++ [exchange]) (scope.refer entry context) := by
  have hlines := log.lines_concat_of_seen hseen
  refine ⟨?_, ?_, ?_⟩
  · intro other
    rw [hnames, ← hrecounts.names]
    unfold Scope.refer
    split
    · rw [symbol?_modifySymbol, Option.map_map]
      congr 1
      funext symbol
      dsimp only [Function.comp]
      split <;> rfl
    · rfl
  · intro other symbol hsymbol
    rw [hlines]
    unfold Scope.refer at hsymbol
    by_cases hrecords : context.recordsReferences
    · rw [if_pos hrecords, symbol?_modifySymbol] at hsymbol
      obtain ⟨old, hold, rfl⟩ := Option.map_eq_some_iff.mp hsymbol
      have hkept := hrecounts.lines other old hold
      have hname := hrecounts.names other
      rw [hold, Option.map_some] at hname
      by_cases hsame : entry = other
      · subst hsame
        obtain rfl : old.name = name := Option.some.inj (hname.trans hentry)
        simp [Symbol.refer, hrecords, hkept]
      · have hother : name ≠ old.name := by
          rintro rfl
          have hless := (List.getElem?_eq_some_iff.mp hentry).1
          have hplace := (List.getElem?_inj hless log.nodup_names).mp (hentry.trans hname)
          exact hsame (congrArg EntryId.mk hplace)
        simp [hsame, hother, hkept]
    · rw [if_neg hrecords] at hsymbol
      simp [hrecords, hrecounts.lines other symbol hsymbol]
  · intro other hother
    rw [hnames] at hother
    have hne : name ≠ other := by
      rintro rfl
      exact hother (List.mem_of_getElem? hentry)
    simp [hlines, hne, hrecounts.unseen other hother]

/-- A new name comes at the end, with the line on which it was entered. -/
theorem push (hnew : name ∉ log.names) {exchange : Request × Answer}
    (hentered : Log.entered? exchange = some name)
    (hseen : Log.seen? exchange = some (name, context)) {later : Scope}
    (hsymbols : later.symbols = scope.symbols.push (scope.newSymbol name context)) :
    Recounts (log ++ [exchange]) later := by
  have hnames : Log.names (log ++ [exchange]) = log.names ++ [name] := by
    rw [Log.names_concat, hentered]
    exact if_neg hnew
  have hlines := log.lines_concat_of_seen hseen
  have hsize : log.names.length = scope.symbols.size := hrecounts.size_eq.symm
  refine ⟨?_, ?_, ?_⟩
  · intro entry
    have hold := hrecounts.names entry
    rw [hnames, symbol?, hsymbols, Array.getElem?_push]
    rcases Nat.lt_trichotomy entry.val scope.symbols.size with hless | hlast | hbeyond
    · rw [if_neg hless.ne, List.getElem?_append_left (hsize ▸ hless)]
      exact hold
    · rw [if_pos hlast, hlast, ← hsize, List.getElem?_concat_length, Option.map_some,
        name_newSymbol]
    · rw [if_neg hbeyond.ne', Array.getElem?_eq_none hbeyond.le, Option.map_none,
        List.getElem?_eq_none (by simpa [hsize, Nat.succ_le_iff] using hbeyond)]
  · intro entry symbol hsymbol
    rw [hlines]
    rw [symbol?, hsymbols, Array.getElem?_push] at hsymbol
    split at hsymbol
    · cases hsymbol
      rw [name_newSymbol, hrecounts.unseen name hnew]
      by_cases hrecords : context.recordsReferences <;> simp [newSymbol, hrecords, Symbol.refer]
    · have hname := hrecounts.names entry
      rw [symbol?, hsymbol, Option.map_some] at hname
      have hne : name ≠ symbol.name := by
        rintro rfl
        exact hnew (List.mem_of_getElem? hname.symm)
      simp [hne, hrecounts.lines entry symbol hsymbol]
  · intro other hother
    rw [hnames, List.mem_append, List.mem_singleton, not_or] at hother
    simp [hlines, Ne.symm hother.2, hrecounts.unseen other hother.1]

/-- A request is answered from the list of names. -/
theorem answer_eq (hscope : scope.Maintained) (request : Request) :
    request.answer scope = request.answerFrom scope.index log.names := by
  have hsearch := hrecounts.search_eq hscope.wellFormed
  cases request with
  | enter name context =>
      have hfound := hsearch name
      simp only [Request.answer, Request.answerFrom]
      cases hplace : log.names.idxOf? name with
      | some place =>
          rw [hplace] at hfound
          rw [admission_of_some hfound]
          rfl
      | none =>
          rw [hplace] at hfound
          rw [admission_of_none hfound, hrecounts.size_eq]
          dsimp only
          split_ifs <;> rfl
  | lookup name context => exact congrArg Except.ok (hsearch name)
  | search name => exact congrArg Except.ok (hsearch name)
  | flatten =>
      obtain ⟨ranks, -, hflatten⟩ := hscope.exists_flatten
      simp only [Request.answer, Request.answerFrom, hflatten]
      rfl

/-- One exchange more. -/
theorem after (hscope : scope.Maintained) (request : Request) :
    Recounts (log ++ [(request, request.answer scope)]) (request.after scope) := by
  have hwell := hscope.wellFormed
  cases request with
  | enter name context =>
      cases hsearch : scope.search name with
      | some entry =>
          have hentry := (hrecounts.search_eq_some_iff hwell).mp hsearch
          have hanswer : (scope.admission name).map some = .ok (some entry) := by
            rw [admission_of_some hsearch]
            rfl
          simp only [Request.answer, Request.after, hanswer, enter_of_some hsearch]
          apply hrecounts.refer hentry _ rfl
          rw [Log.names_concat]
          exact if_pos (List.mem_of_getElem? hentry)
      | none =>
          have hnew : name ∉ log.names := by
            rw [hrecounts.search_eq hwell, Option.map_eq_none_iff] at hsearch
            exact List.idxOf?_eq_none_iff.mp hsearch
          by_cases hroom : scope.size < capacity
          · have hanswer : (scope.admission name).map some = .ok (some ⟨scope.size⟩) := by
              rw [admission_of_none hsearch, if_pos hroom]
              rfl
            simp only [Request.answer, Request.after, hanswer]
            exact hrecounts.push hnew rfl rfl (symbols_enter_of_none hsearch hroom)
          · have hanswer : (scope.admission name).map some =
                .error (.scopeFull scope.index capacity) := by
              rw [admission_of_none hsearch, if_neg hroom]
              rfl
            simp only [Request.answer, Request.after, hanswer,
              enter_of_full hsearch (Nat.not_lt.mp hroom)]
            exact hrecounts.quiet rfl rfl rfl
  | lookup name context =>
      simp only [Request.answer, Request.after, Scope.lookup]
      cases hsearch : scope.search name with
      | some entry =>
          have hentry := (hrecounts.search_eq_some_iff hwell).mp hsearch
          apply hrecounts.refer hentry _ rfl
          rw [Log.names_concat]
          rfl
      | none => exact hrecounts.quiet rfl rfl rfl
  | search name => exact hrecounts.quiet rfl rfl rfl
  | flatten =>
      obtain ⟨ranks, -, hflatten⟩ := hscope.exists_flatten
      simp only [Request.answer, Request.after, hflatten]
      apply hrecounts.quiet <;> rfl

/-- Any number of exchanges more. -/
theorem serve (hscope : scope.Maintained) (requests : List Request) :
    Recounts (log ++ (scope.serve requests).1) (scope.serve requests).2 := by
  induction requests generalizing scope log with
  | nil => simpa [Scope.serve] using hrecounts
  | cons request rest ih =>
      have hrest := ih (hrecounts.after hscope request) (hscope.after request)
      rwa [List.append_assoc] at hrest

end Recounts

/-- The empty log tells of a new scope. -/
theorem Recounts.empty (index : ScopeIndex) : Recounts [] { index } where
  names _ := rfl
  lines entry symbol hsymbol := by simp [symbol?] at hsymbol
  unseen _ _ := rfl

/-- A scope is a list of names in the order of their first entry, each with the lines on
which it was seen. -/
theorem serve_dictionary (index : ScopeIndex) (requests : List Request) :
    let log : Log := (serve { index } requests).1
    let scope : Scope := (serve { index } requests).2
    scope.symbols.toList.map Symbol.name = log.names ∧ log.names.Nodup ∧
      scope.size = log.names.length ∧
      (∀ name, scope.search name = (log.names.idxOf? name).map EntryId.mk) ∧
      (∀ request : Request, request.answer scope = request.answerFrom index log.names) ∧
      (∀ symbol ∈ scope.symbols, symbol.references.toList = log.lines symbol.name) ∧
      (∀ name entry later, scope.search name = some entry →
        (scope.serve later).2.search name = some entry) := by
  intro log scope
  have hscope : scope.Maintained := (Maintained.empty index).serve requests
  have hrecounts : Recounts log scope := by
    have h := (Recounts.empty index).serve (.empty index) requests
    rwa [List.nil_append] at h
  have hindex : scope.index = index := index_serve requests
  refine ⟨hrecounts.map_name_eq, log.nodup_names, hrecounts.size_eq,
    hrecounts.search_eq hscope.wellFormed, ?_, ?_, ?_⟩
  · intro request
    rw [hrecounts.answer_eq hscope, hindex]
  · intro symbol hsymbol
    obtain ⟨number, hnumber⟩ := Array.mem_iff_getElem?.mp hsymbol
    exact hrecounts.lines ⟨number⟩ symbol hnumber
  · intro name entry later hsearch
    have hlater := hrecounts.serve hscope later
    obtain ⟨more, hmore⟩ := log.names_prefix (scope.serve later).1
    rw [hrecounts.search_eq_some_iff hscope.wellFormed] at hsearch
    rw [hlater.search_eq_some_iff (hscope.serve later).wellFormed, ← hmore]
    rw [List.getElem?_append_left (List.getElem?_eq_some_iff.mp hsearch).1]
    exact hsearch

end ScopeMachine.Scope
