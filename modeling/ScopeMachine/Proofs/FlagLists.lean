/-
# What a list of flags means

A list of flags is divided at its commas. A part is admitted if it is blank or one of six
names with blanks around it, and each name switches on certain hooks. The list means all
hooks that some part switches on, or it is refused for the first part that is not admitted.
So lists can be joined, and on lists that are not refused order, repetition and spacing of
the names do not matter.
-/

import ScopeMachine.Proofs.Text.Parts
import ScopeMachine.Trace.Flags

namespace ScopeMachine

/-- The names that switch the hook on. -/
def Hook.names : Hook → List String
  | .routine => ["routine", "all"]
  | .statement => ["statement", "all"]
  | .fetch => ["fetch", "data", "all"]
  | .store => ["store", "data", "all"]

theorem Hook.ne_empty_of_mem_names {hook : Hook} {name : String} (hname : name ∈ hook.names) :
    name ≠ "" := by
  rintro rfl
  cases hook <;> revert hname <;> decide

namespace TraceFlags

/-- The names that a list of flags may hold. -/
def names : List String :=
  ["routine", "statement", "fetch", "store", "data", "all"]

/-- The part is blank, or a name with blanks around it. -/
def Admits (part : List Char) : Prop :=
  ∃ word : String, Text.Padded word.toList part ∧ (word = "" ∨ word ∈ names)

/-- The part is a name that switches the hook on, with blanks around it. -/
def SwitchesOn (part : List Char) (hook : Hook) : Prop :=
  ∃ word : String, Text.Padded word.toList part ∧ word ∈ hook.names

/-- What a list of these parts means. -/
inductive Means (parts : List (List Char)) : Except UnknownFlag TraceFlags → Prop
  | hooks {flags : TraceFlags} (hadmitted : ∀ part ∈ parts, Admits part)
      (hhas : ∀ hook, flags.has hook = true ↔ ∃ part ∈ parts, SwitchesOn part hook) :
      Means parts (.ok flags)
  | unknown {before after : List (List Char)} {part : List Char} {name : String}
      (hparts : parts = before ++ part :: after) (hbefore : ∀ earlier ∈ before, Admits earlier)
      (hpart : ¬ Admits part) (hname : Text.Padded name.toList part) :
      Means parts (.error ⟨name⟩)

/-- The hooks of two lists together, or the refusal of the first that is refused. -/
def join : (first second : Except UnknownFlag TraceFlags) → Except UnknownFlag TraceFlags
  | .ok flags, .ok more => .ok (flags.union more)
  | .ok _, .error unknown => .error unknown
  | .error unknown, _ => .error unknown

variable {parts others : List (List Char)} {part : List Char} {word name : String}
  {flags : TraceFlags} {first second : Except UnknownFlag TraceFlags}

/-! ## Names -/

theorem mem_names_of_named? (hnamed : named? name = some flags) :
    name ∈ names ∧ ∀ hook, flags.has hook = true ↔ name ∈ hook.names := by
  unfold named? at hnamed
  split at hnamed <;> cases hnamed
  all_goals
    refine ⟨by decide, fun hook => ?_⟩
    cases hook <;> decide

theorem not_mem_names_of_named? (hnamed : named? name = Option.none) : name ∉ names := by
  intro hname
  simp only [names, List.mem_cons, List.not_mem_nil, or_false] at hname
  rcases hname with rfl | rfl | rfl | rfl | rfl | rfl <;> cases hnamed

/-! ## Parts -/

/-- A part holds one word only. -/
theorem eq_of_padded (hword : Text.Padded word.toList part) (hname : Text.Padded name.toList part) :
    word = name := by
  rw [← String.toList_inj, ← Text.trim_eq_iff.mpr hword, Text.trim_eq_iff.mpr hname]

theorem admits_iff (hword : Text.Padded word.toList part) :
    Admits part ↔ word = "" ∨ word ∈ names := by
  constructor
  · rintro ⟨name, hname, hadmitted⟩
    rwa [eq_of_padded hword hname]
  · exact fun hadmitted => ⟨word, hword, hadmitted⟩

theorem switchesOn_iff (hword : Text.Padded word.toList part) {hook : Hook} :
    SwitchesOn part hook ↔ word ∈ hook.names := by
  constructor
  · rintro ⟨name, hname, hmem⟩
    rwa [eq_of_padded hword hname]
  · exact fun hmem => ⟨word, hword, hmem⟩

/-- Every part has a word, which may be empty. -/
theorem padded_word (part : List Char) :
    Text.Padded (String.ofList (Text.trim part)).toList part := by
  rw [String.toList_ofList]
  exact Text.padded_trim part

theorem means_ofPart (part : List Char) : Means [part] (ofPart part) := by
  have hword := padded_word part
  have hflags {flags : TraceFlags} (hadmitted : Admits part)
      (hhas : ∀ hook, flags.has hook = true ↔ SwitchesOn part hook) :
      Means [part] (.ok flags) := by
    refine .hooks (List.forall_mem_singleton.mpr hadmitted) fun hook => ?_
    simp only [List.mem_singleton, exists_eq_left, hhas]
  unfold ofPart
  split
  · rename_i hblank
    rw [hblank] at hword
    refine hflags ((admits_iff hword).mpr (.inl rfl)) fun hook => ?_
    rw [switchesOn_iff hword]
    cases hook <;> decide
  · rename_i hname
    split
    · rename_i flags hnamed
      obtain ⟨hmem, hhas⟩ := mem_names_of_named? hnamed
      refine hflags ((admits_iff hword).mpr (.inr hmem)) fun hook => ?_
      rw [hhas, switchesOn_iff hword]
    · rename_i hnamed
      refine .unknown (List.nil_append [part]).symm (List.forall_mem_nil _) ?_ hword
      rw [admits_iff hword, not_or]
      refine ⟨fun hempty => hname ?_, not_mem_names_of_named? hnamed⟩
      rw [← String.toList_ofList (l := Text.trim part), hempty]
      rfl

/-! ## Lists -/

theorem Means.append (hfirst : Means parts first) (hsecond : Means others second) :
    Means (parts ++ others) (join first second) := by
  cases hfirst with
  | unknown hparts hbefore hpart hname =>
      rw [hparts, List.append_assoc, List.cons_append]
      exact .unknown rfl hbefore hpart hname
  | hooks hadmitted hhas =>
      cases hsecond with
      | unknown hparts hbefore hpart hname =>
          rw [hparts, ← List.append_assoc]
          exact .unknown rfl (List.forall_mem_append.mpr ⟨hadmitted, hbefore⟩) hpart hname
      | hooks hlater hmore =>
          refine .hooks (List.forall_mem_append.mpr ⟨hadmitted, hlater⟩) fun hook => ?_
          simp only [has_union, Bool.or_eq_true, hhas, hmore, List.mem_append, or_and_right,
            exists_or]

theorem means_ofParts (parts : List (List Char)) : Means parts (ofParts parts) := by
  induction parts with
  | nil =>
      refine .hooks (List.forall_mem_nil _) fun hook => ?_
      simp only [List.not_mem_nil, false_and, exists_false, iff_false]
      cases hook <;> decide
  | cons part others ih =>
      have hjoin : ofParts (part :: others) = join (ofPart part) (ofParts others) := by
        rw [ofParts]
        cases ofPart part <;> cases ofParts others <;> rfl
      rw [hjoin]
      exact (means_ofPart part).append ih

/-- The parts determine which one is the first that is not admitted. -/
theorem eq_of_first_refused {before after earlier later : List (List Char)} {other : List Char}
    (hparts : before ++ part :: after = earlier ++ other :: later)
    (hbefore : ∀ part ∈ before, Admits part) (hpart : ¬ Admits part)
    (hearlier : ∀ part ∈ earlier, Admits part) (hother : ¬ Admits other) : part = other := by
  classical
  have hfound {front back : List (List Char)} {refused : List Char}
      (hfront : ∀ part ∈ front, Admits part) (hrefused : ¬ Admits refused) :
      (front ++ refused :: back).find? (fun part => ¬ Admits part) = some refused := by
    refine List.find?_eq_some_iff_append.mpr ⟨decide_eq_true hrefused, front, back, rfl, ?_⟩
    intro part hmem
    simpa using hfront part hmem
  rw [← Option.some_inj, ← hfound hbefore hpart, hparts, hfound hearlier hother]

/-- A list means one thing only. -/
theorem Means.unique (hfirst : Means parts first) (hsecond : Means parts second) :
    first = second := by
  cases hfirst with
  | hooks hadmitted hhas =>
      cases hsecond with
      | hooks hagain hmore =>
          refine congrArg Except.ok (ext_has fun hook => Bool.eq_iff_iff.mpr ?_)
          rw [hhas, hmore]
      | unknown hparts hbefore hpart hname =>
          exact absurd (hadmitted _ (by simp [hparts])) hpart
  | unknown hparts hbefore hpart hname =>
      cases hsecond with
      | hooks hadmitted hhas => exact absurd (hadmitted _ (by simp [hparts])) hpart
      | unknown hagain hearlier hother hcalled =>
          obtain rfl := eq_of_first_refused (hparts.symm.trans hagain) hbefore hpart hearlier hother
          rw [eq_of_padded hname hcalled]

theorem parse_eq_iff {list : String} {result : Except UnknownFlag TraceFlags}
    (hparts : Text.Divides ',' list.toList parts) : parse list = result ↔ Means parts result := by
  have hmeans : Means parts (parse list) := by
    rw [parse, Text.fields_eq_iff.mpr hparts]
    exact means_ofParts parts
  constructor
  · rintro rfl
    exact hmeans
  · exact hmeans.unique

/-- A list is accepted if nothing in it is refused. -/
theorem exists_parse_eq_ok_iff {list : String} (hparts : Text.Divides ',' list.toList parts) :
    (∃ flags, parse list = .ok flags) ↔ ∀ part ∈ parts, Admits part := by
  constructor
  · rintro ⟨flags, hflags⟩
    obtain ⟨hadmitted, -⟩ := (parse_eq_iff hparts).mp hflags
    exact hadmitted
  · intro hadmitted
    cases hparse : parse list with
    | ok flags => exact ⟨flags, rfl⟩
    | error unknown =>
        obtain ⟨-, -⟩ | ⟨rfl, -, hpart, -⟩ := (parse_eq_iff hparts).mp hparse
        exact absurd (hadmitted _ (List.mem_append_right _ List.mem_cons_self)) hpart

/-- A comma between two lists joins what they mean. -/
theorem parse_append (list more : String) :
    parse (list ++ "," ++ more) = join (parse list) (parse more) := by
  have htext : (list ++ "," ++ more).toList = list.toList ++ ',' :: more.toList := by
    rw [String.toList_append, String.toList_append, List.append_assoc]
    rfl
  rw [parse, htext, Text.fields_append]
  exact (means_ofParts _).unique ((means_ofParts _).append (means_ofParts _))

/-! ## Words in any order -/

/-- The same words stand in both lists, in whatever order, however often and between
whatever blanks. -/
def SameWords (parts others : List (List Char)) : Prop :=
  ∀ word, word ≠ [] →
    ((∃ part ∈ parts, Text.Padded word part) ↔ ∃ part ∈ others, Text.Padded word part)

theorem SameWords.symm (hsame : SameWords parts others) : SameWords others parts :=
  fun word hword => (hsame word hword).symm

theorem SameWords.exists_switchesOn (hsame : SameWords parts others) {hook : Hook}
    (hon : ∃ part ∈ parts, SwitchesOn part hook) : ∃ part ∈ others, SwitchesOn part hook := by
  obtain ⟨part, hpart, word, hword, hmem⟩ := hon
  have hne : word.toList ≠ [] := fun hempty =>
    hook.ne_empty_of_mem_names hmem (String.toList_eq_nil_iff.mp hempty)
  obtain ⟨other, hother, hagain⟩ := (hsame _ hne).mp ⟨part, hpart, hword⟩
  exact ⟨other, hother, word, hagain, hmem⟩

theorem Means.of_sameWords (hmeans : Means parts (.ok flags)) (hsame : SameWords parts others) :
    Means others (.ok flags) := by
  obtain ⟨hadmitted, hhas⟩ := hmeans
  refine .hooks (fun other hother => ?_) fun hook => ?_
  · have hword := padded_word other
    -- A word that is not empty stands in the first list too, and was admitted there.
    by_cases hempty : String.ofList (Text.trim other) = ""
    · exact ⟨_, hword, .inl hempty⟩
    · have hne : (String.ofList (Text.trim other)).toList ≠ [] := fun hnil =>
        hempty (String.toList_eq_nil_iff.mp hnil)
      obtain ⟨part, hpart, hagain⟩ := (hsame _ hne).mpr ⟨other, hother, hword⟩
      exact ⟨_, hword, (admits_iff hagain).mp (hadmitted part hpart)⟩
  · rw [hhas]
    exact ⟨hsame.exists_switchesOn, hsame.symm.exists_switchesOn⟩

/-- A list of flags means what its parts mean, and every text divides into parts in one way.
It is accepted if every part is blank or one of the six names, and then has the hooks that
some part switches on. Otherwise it is refused for the first part that is neither, without
the blanks around it. Two lists with a comma between them have the hooks of both, or the
first refusal. A list that has the same words as an accepted one is accepted as well and has
the same hooks. -/
theorem parse_joins_lists :
    (∀ list : String, ∃! parts, Text.Divides ',' list.toList parts) ∧
    (∀ (list : String) (parts : List (List Char)), Text.Divides ',' list.toList parts →
      ((∃ flags, parse list = .ok flags) ↔ ∀ part ∈ parts, Admits part) ∧
      ∀ result, parse list = result ↔ Means parts result) ∧
    (∀ first second : String,
      parse (first ++ "," ++ second) = join (parse first) (parse second)) ∧
    ∀ (first second : String) (parts others : List (List Char)) (flags : TraceFlags),
      Text.Divides ',' first.toList parts → Text.Divides ',' second.toList others →
        SameWords parts others → parse first = .ok flags → parse second = .ok flags := by
  refine ⟨fun list => ?_, fun list parts hparts => ?_, parse_append,
    fun first second parts others flags hparts hothers hsame hfirst => ?_⟩
  · exact ⟨_, Text.fields_eq_iff.mp rfl, fun parts hparts => (Text.fields_eq_iff.mpr hparts).symm⟩
  · exact ⟨exists_parse_eq_ok_iff hparts, fun result => parse_eq_iff hparts⟩
  · rw [parse_eq_iff hothers]
    exact ((parse_eq_iff hparts).mp hfirst).of_sameWords hsame

theorem parse_joins_lists_reordered :
    ∃ parts others, Text.Divides ',' " store,\u2003all".toList parts ∧
      Text.Divides ',' "all ,,all,store".toList others ∧ SameWords parts others ∧
      parse " store,\u2003all" = .ok all ∧ parse "all ,,all,store" = .ok all ∧
      parse ("all ,,all,store" ++ "," ++ " Data ,x") = .error ⟨"Data"⟩ := by
  have hparts := Text.fields_eq_iff.mp (rfl : Text.fields ',' " store,\u2003all".toList = _)
  have hothers := Text.fields_eq_iff.mp (rfl : Text.fields ',' "all ,,all,store".toList = _)
  have hsame : SameWords (Text.fields ',' " store,\u2003all".toList)
      (Text.fields ',' "all ,,all,store".toList) := by
    intro word hword
    simp only [Text.exists_padded_iff]
    have hfirst : (Text.fields ',' " store,\u2003all".toList).map Text.trim =
        ["store".toList, "all".toList] := by decide
    have hsecond : (Text.fields ',' "all ,,all,store".toList).map Text.trim =
        ["all".toList, [], "all".toList, "store".toList] := by decide
    rw [hfirst, hsecond]
    simp only [List.mem_cons, List.not_mem_nil, hword]
    tauto
  have hfirst : parse " store,\u2003all" = .ok all := by decide
  refine ⟨_, _, hparts, hothers, hsame, hfirst, ?_, ?_⟩
  · exact parse_joins_lists.2.2.2 _ _ _ _ _ hparts hothers hsame hfirst
  · rw [parse_joins_lists.2.2.1]
    decide

end TraceFlags

end ScopeMachine
