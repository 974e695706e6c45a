/-
# State of the machine

The machine has a stack of values, the values of the globals, one frame for each
active routine, and what the running program can change besides: streams, files,
output, types and the current line. An instruction either goes through or ends
in an error, and what it did before the error stays done.
-/

import ScopeMachine.Machine.Error
import ScopeMachine.Scope.Store
import ScopeMachine.Stream.Channels

namespace ScopeMachine

/-- The values of variables. -/
structure Slots where
  /-- Every variable that has a value, once. -/
  entries : List (SymbolRef × Value) := []
deriving DecidableEq

namespace Slots

/-- The value of a variable. -/
def get? (slots : Slots) (symbol : SymbolRef) : Option Value :=
  slots.entries.lookup symbol

/-- Replace the value of a variable in a list of entries, or add it at the end. -/
def setIn (symbol : SymbolRef) (value : Value) :
    List (SymbolRef × Value) → List (SymbolRef × Value)
  | [] => [(symbol, value)]
  | entry :: others =>
    if entry.1 = symbol then (symbol, value) :: others else entry :: setIn symbol value others

/-- Give a variable a value. -/
def set (slots : Slots) (symbol : SymbolRef) (value : Value) : Slots :=
  ⟨setIn symbol value slots.entries⟩

/-- The values of parameters that are bound to arguments from the last to the
first. -/
def bind (parameters : List SymbolRef) (arguments : List Value) : Slots :=
  (parameters.zip arguments).foldr (fun bound slots => slots.set bound.1 bound.2) {}

/-- A variable has the value it was given last. -/
@[simp]
theorem get?_set_self (slots : Slots) (symbol : SymbolRef) (value : Value) :
    (slots.set symbol value).get? symbol = some value := by
  rcases slots with ⟨entries⟩
  simp only [get?, set]
  induction entries with
  | nil => simp [setIn]
  | cons entry others ih =>
    rcases entry with ⟨name, held⟩
    by_cases hname : name = symbol
    · simp [setIn, hname]
    · have hne : (symbol == name) = false := by
        simpa using fun h => hname h.symm
      simp [setIn, hname, List.lookup_cons, hne, ih]

/-- Giving a variable a value changes no other variable. -/
theorem get?_set_of_ne (slots : Slots) {symbol other : SymbolRef} (value : Value)
    (hother : other ≠ symbol) : (slots.set symbol value).get? other = slots.get? other := by
  rcases slots with ⟨entries⟩
  simp only [get?, set]
  have hne : (other == symbol) = false := by simpa using hother
  induction entries with
  | nil => simp [setIn, List.lookup_cons, hne]
  | cons entry others ih =>
    rcases entry with ⟨name, held⟩
    by_cases hname : name = symbol
    · simp [setIn, hname, List.lookup_cons, hne]
    · simp [setIn, hname, List.lookup_cons, ih]

end Slots

/-- An active routine. -/
structure Frame where
  /-- The scope whose variables the frame holds. -/
  scope : Option ScopeIndex
  /-- Their values. -/
  locals : Slots := {}
deriving DecidableEq

/-- Everything that running code reads and changes. -/
structure Machine where
  /-- The values that are being worked on, the top first. -/
  stack : List Value := []
  /-- The values of the globals. -/
  globals : Slots := {}
  /-- The active routines, the outermost first. -/
  frames : Array Frame := #[]
  /-- Streams, files and output. -/
  channels : Channels := {}
  /-- The types, to which results of varying length add. -/
  types : TypeStore := .predefined
  /-- The current source line. -/
  line : Nat := 0
deriving DecidableEq

/-- Where arrays stand in memory when they are shown. An array is shown by a text
whose type is made for it, so there is a place for each type that may come to be;
two arrays may be shown alike or not. -/
abbrev Places := TypeId → String

namespace Places

/-- Places that lie apart, sixteen bytes from each to the next. -/
def apart : Places := fun id =>
  "0x" ++ String.ofList (Nat.toDigits 16 (16 * (id.index + 1)))

end Places

/-- What running code reads and never changes. -/
structure Environment where
  /-- The symbol tables. -/
  scopes : ScopeStore
  /-- The settings. -/
  settings : Settings
  /-- Where the arrays stand that are shown. -/
  places : Places := .apart

/-- The environment with arrays shown in other places. -/
def Environment.placing (env : Environment) (places : Places) : Environment :=
  { env with places }

/-- Running code: an answer or an error, and the machine afterwards. -/
abbrev Exec := EStateM EvalError Machine

namespace Machine

/-- Send a piece of output. -/
def emit (machine : Machine) (piece : Piece) : Machine :=
  { machine with channels.sink := machine.channels.sink.append piece }

/-- Push a value. -/
def push (value : Value) : Exec Unit := fun machine =>
  .ok () { machine with stack := value :: machine.stack }

/-- Pop the top of the stack. -/
def pop : Exec Value := fun machine =>
  match machine.stack with
  | [] => .error .stackUnderflow machine
  | value :: rest => .ok value { machine with stack := rest }

/-- The top of the stack, which stays where it is. -/
def top : Exec Value := fun machine =>
  match machine.stack with
  | [] => .error .stackUnderflow machine
  | value :: _ => .ok value machine

/-- Pop `count` values and answer them in the order in which they were pushed. If
there are not as many, none is left. -/
def popOperands (taker : String) (count : Nat) : Exec (Vector Value count) :=
  fun machine =>
    let taken := machine.stack.take count
    if htaken : taken.length = count then
      .ok ⟨taken.reverse.toArray, by simp [htaken]⟩
        { machine with stack := machine.stack.drop count }
    else .error (.arityMismatch taker count taken.length) { machine with stack := [] }

/-- Look something up in the symbol tables. -/
def ofScopes {α : Type} (found : Except ScopeError α) : Exec α := fun machine =>
  match found with
  | .ok answer => .ok answer machine
  | .error refusal => .error (.scope refusal) machine

/-- What is found is worked on. -/
@[simp]
theorem ofScopes_ok_bind {α β : Type} (answer : α) (next : α → Exec β) :
    (ofScopes (.ok answer) >>= next) = next answer := rfl

/-- A refusal of the symbol tables ends the code. -/
@[simp]
theorem ofScopes_error_bind {α β : Type} (refusal : ScopeError) (next : α → Exec β) :
    (ofScopes (.error refusal) >>= next) = throw (.scope refusal) := rfl

/-- Ask the types. -/
def askTypes {α : Type} (question : TypeStore → Except TypeRefusal α) : Exec α :=
  fun machine =>
    match question machine.types with
    | .ok answer => .ok answer machine
    | .error refusal => .error (.types refusal) machine

/-- Add the type of an array of `count` characters. -/
def charArrayType (count : Nat) : Exec TypeId := fun machine =>
  match machine.types.array .char count with
  | .ok (id, types) => .ok id { machine with types }
  | .error refusal => .error (.types refusal) machine

/-- Work on streams, files and output. -/
def onChannels {α : Type} (work : Channels → α × Channels) : Exec α := fun machine =>
  let (answer, channels) := work machine.channels
  .ok answer { machine with channels }

/-- Announce something if its hook is switched on. -/
def announce (env : Environment) (hook : Hook)
    (piece : TypeStore → Except TypeRefusal Piece) : Exec Unit := fun machine =>
  if env.settings.trace.has hook then
    match piece machine.types with
    | .ok announced => .ok () (machine.emit announced)
    | .error refusal => .error (.types refusal) machine
  else .ok () machine

/-- Run something inside a new frame, which is gone afterwards in any case. -/
def withFrame {α : Type} (frame : Frame) (work : Exec α) : Exec α := fun machine =>
  match work { machine with frames := machine.frames.push frame } with
  | .ok answer after => .ok answer { after with frames := after.frames.pop }
  | .error error after => .error error { after with frames := after.frames.pop }

/-- Give a global a value without announcing it. -/
def define (symbol : SymbolRef) (value : Value) : Exec Unit := fun machine =>
  .ok () { machine with globals := machine.globals.set symbol value }

/-- A stream in a new slot, not bound to anything. -/
def newStream : Exec Value := do
  let id ← onChannels Channels.allocate
  return .stream id

end Machine

end ScopeMachine
