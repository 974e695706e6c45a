/-
# Variables

A variable lives in the innermost frame whose scope is the one that declares it,
and among the globals if there is no such frame. A var parameter that is bound
to an address stands for the variable at that address, in fetches, stores and
when its own address is taken.
-/

import ScopeMachine.Machine.State
import ScopeMachine.Trace.Render

namespace ScopeMachine

namespace Symbol

/-- The value of a constant, as its type holds it; the slot of the symbol is cut
off to what the type can hold. -/
def constantValue (symbol : Symbol) : TypeCode → Option Value
  | .int => some (.int (Int32.ofInt (reading.clamp (-2147483648) 2147483647)))
  | .float => some (.float symbol.value.toBinary32)
  | .bool => some (.bool (!reading.isZero))
  | .char => some (.char (UInt8.ofNat (reading.clamp 0 255).toNat))
  | .wideChar => some (.wideChar (Char.ofNat (reading.clamp 0 4294967295).toNat))
  | .byte => some (.byte (UInt8.ofNat (reading.clamp 0 255).toNat))
  | .address => none
where
  /-- The exact value in the slot of the symbol. -/
  reading : Decimal.Reading := symbol.value.reading

end Symbol

namespace Machine

/-- The innermost of the `count` outermost frames that holds the variables of a
scope. -/
def innermost (frames : Array Frame) (scope : ScopeIndex) : (count : Nat) → Option Nat
  | 0 => none
  | count + 1 =>
    if (frames[count]?).any (·.scope = some scope) then some count
    else innermost frames scope count

/-- Where a variable lives. -/
def placeOf (machine : Machine) (symbol : SymbolRef) : Place :=
  match innermost machine.frames symbol.scope machine.frames.size with
  | some depth => .frame depth
  | none => .globals

/-- The value of a variable in some place. -/
def slot? (machine : Machine) (address : VariableAddress) : Option Value :=
  match address.place with
  | .globals => machine.globals.get? address.symbol
  | .frame depth =>
    match machine.frames[depth]? with
    | some frame => frame.locals.get? address.symbol
    | none => none

/-- Give a variable in some place a value. In a frame that is gone nothing
happens. -/
def setSlot (machine : Machine) (address : VariableAddress) (value : Value) : Machine :=
  match address.place with
  | .globals => { machine with globals := machine.globals.set address.symbol value }
  | .frame depth =>
    { machine with
      frames := machine.frames.modify depth fun frame =>
        { frame with locals := frame.locals.set address.symbol value } }

/-- The address of a variable as it lives now. -/
def ownAddress (machine : Machine) (symbol : SymbolRef) : VariableAddress :=
  ⟨symbol, machine.placeOf symbol⟩

/-- The address that a var parameter is bound to. -/
def referent? (machine : Machine) (defn : Definition) (symbol : SymbolRef) :
    Option VariableAddress :=
  match defn with
  | .varParameter =>
    match machine.slot? (machine.ownAddress symbol) with
    | some (.address target) => some target
    | _ => none
  | _ => none

/-- The address that a symbol stands for. -/
def addressOf (machine : Machine) (defn : Definition) (symbol : SymbolRef) :
    VariableAddress :=
  (machine.referent? defn symbol).getD (machine.ownAddress symbol)

/-- The value of a constant. -/
def fetchConstant (symbol : Symbol) : Exec Value := do
  let code ← askTypes (·.code (symbol.type.getD .int))
  match symbol.constantValue code with
  | some value => return value
  | none => throw (.typeMismatch .scalarConstant (some .address))

/-- The value of a variable. -/
def fetchVariable (symbol : Symbol) (ref : SymbolRef) : Exec Value := fun machine =>
  match machine.slot? (machine.addressOf symbol.defn ref) with
  | some value => .ok value machine
  | none => .error (.unboundVariable symbol.name) machine

/-- The value of a symbol: that of the constant, or that of the variable. -/
def valueOf (symbol : Symbol) (ref : SymbolRef) : Exec Value :=
  match symbol.defn with
  | .constant => fetchConstant symbol
  | _ => fetchVariable symbol ref

/-- What is no constant is a variable. -/
theorem valueOf_eq_fetchVariable {symbol : Symbol} (hconstant : symbol.defn ≠ .constant)
    (ref : SymbolRef) : valueOf symbol ref = fetchVariable symbol ref := by
  unfold valueOf
  split
  · exact absurd ‹_› hconstant
  · rfl

/-- The value of a variable, a parameter or a constant. -/
def fetch (env : Environment) (ref : SymbolRef) : Exec Value := do
  let symbol ← ofScopes (env.scopes.symbol ref)
  let value ← valueOf symbol ref
  announce env .fetch fun types => symbol.fetchPiece value types env.scopes
  return value

/-- Store a value into a variable or a parameter. -/
def store (env : Environment) (ref : SymbolRef) (value : Value) : Exec Unit := do
  let symbol ← ofScopes (env.scopes.symbol ref)
  announce env .store fun types => symbol.storePiece value types env.scopes
  modify fun machine => machine.setSlot (machine.addressOf symbol.defn ref) value

/-- The address to bind to a var parameter. -/
def fetchAddress (env : Environment) (ref : SymbolRef) : Exec Value := do
  let symbol ← ofScopes (env.scopes.symbol ref)
  let machine ← get
  return .address (machine.addressOf symbol.defn ref)

end Machine

end ScopeMachine
