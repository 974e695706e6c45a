/-
# Trace flags

Four hooks announce what a running program does, and each is switched on its
own. A set of them is written as a list of names between commas, with blanks
around names ignored, empty names skipped, and two names that stand for several
hooks at once.
-/

import ScopeMachine.Text.Basic

namespace ScopeMachine

/-- What a trace can announce. -/
inductive Hook where
  /-- Entering and leaving a routine. -/
  | routine
  /-- Reaching the line of a statement. -/
  | statement
  /-- Fetching the value of a variable. -/
  | fetch
  /-- Storing a value into a variable. -/
  | store
deriving DecidableEq

/-- A set of hooks. -/
structure TraceFlags where
  /-- Whether routine entries and exits are announced. -/
  routine : Bool := false
  /-- Whether statements are announced. -/
  statement : Bool := false
  /-- Whether fetches are announced. -/
  fetch : Bool := false
  /-- Whether stores are announced. -/
  store : Bool := false
deriving DecidableEq, Inhabited

/-- A name in a list of flags that stands for no hook. -/
structure UnknownFlag where
  /-- The name, without the blanks around it. -/
  name : String
deriving DecidableEq

namespace UnknownFlag

/-- The message for an unknown flag, with the names that are known. -/
def message (unknown : UnknownFlag) : String :=
  "unknown trace flag `" ++ unknown.name ++
    "` (expected routine, statement, fetch, store, data, all)"

end UnknownFlag

namespace TraceFlags

/-- No hook at all. -/
def none : TraceFlags := {}

/-- Every hook. -/
def all : TraceFlags := ⟨true, true, true, true⟩

/-- The hooks on data: fetches and stores. -/
def data : TraceFlags := { fetch := true, store := true }

/-- The hooks that are in one of two sets. -/
def union (first second : TraceFlags) : TraceFlags where
  routine := first.routine || second.routine
  statement := first.statement || second.statement
  fetch := first.fetch || second.fetch
  store := first.store || second.store

/-- Whether a hook is in the set. -/
def has (flags : TraceFlags) : Hook → Bool
  | .routine => flags.routine
  | .statement => flags.statement
  | .fetch => flags.fetch
  | .store => flags.store

/-- A hook is in a union if it is in one of the two sets. -/
@[simp]
theorem has_union (first second : TraceFlags) (hook : Hook) :
    (first.union second).has hook = (first.has hook || second.has hook) := by
  cases hook <;> rfl

/-- Sets of hooks are equal if they have the same hooks. -/
theorem ext_has {first second : TraceFlags} (hsame : ∀ hook, first.has hook = second.has hook) :
    first = second := by
  cases first
  cases second
  have hroutine := hsame .routine
  have hstatement := hsame .statement
  have hfetch := hsame .fetch
  have hstore := hsame .store
  simp_all [has]

/-- Whether every hook of `wanted` is in the set. -/
def includes (flags wanted : TraceFlags) : Bool :=
  (!wanted.routine || flags.routine) && (!wanted.statement || flags.statement) &&
    (!wanted.fetch || flags.fetch) && (!wanted.store || flags.store)

/-- The set as a number, with one bit for each hook. -/
def bits (flags : TraceFlags) : Nat :=
  flags.routine.toNat + 2 * flags.statement.toNat + 4 * flags.fetch.toNat +
    8 * flags.store.toNat

/-- The hooks that a name stands for. -/
def named? (name : String) : Option TraceFlags :=
  match name with
  | "routine" => some { routine := true }
  | "statement" => some { statement := true }
  | "fetch" => some { fetch := true }
  | "store" => some { store := true }
  | "data" => some data
  | "all" => some all
  | _ => Option.none

/-- The hooks of one part of a list. A part of blanks only adds nothing. -/
def ofPart (part : List Char) : Except UnknownFlag TraceFlags :=
  match Text.trim part with
  | [] => .ok none
  | name =>
    match named? (String.ofList name) with
    | some flags => .ok flags
    | Option.none => .error ⟨String.ofList name⟩

/-- The hooks of all parts; the first part that is unknown decides a refusal. -/
def ofParts : List (List Char) → Except UnknownFlag TraceFlags
  | [] => .ok none
  | part :: others => do
    let flags ← ofPart part
    let more ← ofParts others
    return flags.union more

/-- Read a list of flag names between commas. -/
def parse (list : String) : Except UnknownFlag TraceFlags :=
  ofParts (Text.fields ',' list.toList)

end TraceFlags

end ScopeMachine
