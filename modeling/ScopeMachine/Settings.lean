/-
# Session settings

The settings of a session say which hooks are traced, whether references to
names are recorded, how wide a listing is, and how deeply routines may call each
other. Together with the source line that is being worked on they form the
context that symbol tables and the machine consult.
-/

import ScopeMachine.Trace.Flags

namespace ScopeMachine

/-- What stays fixed while a program runs. -/
structure Settings where
  /-- The hooks that are announced. -/
  trace : TraceFlags := .none
  /-- Whether references to names are recorded with their lines. -/
  recordsReferences : Bool := false
  /-- How many columns a line of a listing may take. -/
  printWidth : Nat := 80
  /-- How many routines may be active at once. -/
  callDepth : Nat := 1024
deriving DecidableEq, Inhabited

/-- The settings and the current source line. -/
structure Context extends Settings where
  /-- The source line being worked on. -/
  line : Nat := 0
deriving DecidableEq, Inhabited

namespace Context

/-- The greatest line number; counting stops there. -/
def lastLine : Nat := 4294967295

/-- The least print width: one line number fits after a break. -/
def leastPrintWidth : Nat := 8

/-- Go to the next line, unless it is the last. -/
def nextLine (context : Context) : Context :=
  { context with line := min (context.line + 1) lastLine }

/-- Choose a print width; a smaller one than the least is raised to it. -/
def withPrintWidth (context : Context) (width : Nat) : Context :=
  { context with printWidth := max width leastPrintWidth }

/-- The context that named variables ask for: `CX_TRACE` lists the hooks, and
`CX_XREF` turns the record of references on by one of three words. -/
def ofVariables (valueOf : String → Option String) : Except UnknownFlag Context := do
  let trace ←
    match valueOf "CX_TRACE" with
    | some list => TraceFlags.parse list
    | none => .ok .none
  let recordsReferences :=
    match valueOf "CX_XREF" with
    | some word => word == "1" || word == "true" || word == "yes"
    | none => false
  return { trace, recordsReferences }

end Context

end ScopeMachine
