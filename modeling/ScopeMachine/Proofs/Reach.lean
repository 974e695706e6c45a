/-
# What a run comes to

A run carries out one instruction after the other, in the body that it was given
and in the bodies of the routines that this calls, to any depth. `Reaches` says
that a run comes to an instruction in some state of the machine. A statement
about everything that happens in a run, or about runs in which something never
happens, is a statement about what the run reaches.
-/

import ScopeMachine.Machine.Run

namespace ScopeMachine.Machine

/-- The machine inside a new frame. -/
def entering (machine : Machine) (frame : Frame) : Machine :=
  { machine with frames := machine.frames.push frame }

/-- The machine after its innermost frame is gone. -/
def leaving (machine : Machine) : Machine :=
  { machine with frames := machine.frames.pop }

/-- The symbol is a member that the machine carries out itself. -/
def NamesMember (env : Environment) (ref : SymbolRef) (member : Member) : Prop :=
  ∃ symbol kind routine, env.scopes.symbol ref = .ok symbol ∧
    symbol.defn = .routine kind routine ∧ routine.code = .native member

/-- A call of the symbol gets as far as running `body`, which begins in the
machine `inside`: the arguments are bound and the frame is there. -/
def Starts (env : Environment) (ref : SymbolRef) (machine : Machine) (body : Body)
    (inside : Machine) : Prop :=
  ∃ symbol kind routine arguments taken announced,
    env.scopes.symbol ref = .ok symbol ∧ symbol.defn = .routine kind routine ∧
    routine.code = .interpreted body ∧
    popOperands symbol.name routine.parameters.length machine = .ok arguments taken ∧
    announce env .routine (fun _ => .ok (.entered symbol.name)) taken = .ok () announced ∧
    inside = announced.entering
      { scope := frameScope kind routine
        locals := Slots.bind routine.parameters arguments.toList }

/-- A member is not to be found where no symbol is bound to it. -/
theorem not_namesMember_of_all {env : Environment} {member : Member}
    (hall : ∀ scope ∈ env.scopes.scopes.toList, ∀ symbol ∈ scope.symbols.toList,
      symbol.defn.routine?.map Routine.code ≠ some (.native member)) (ref : SymbolRef) :
    ¬ NamesMember env ref member := by
  rintro ⟨symbol, kind, routine, hsymbol, hdefn, hcode⟩
  apply ScopeStore.symbol_of_all hall hsymbol
  simp [hdefn, Definition.routine?, hcode]

/-- The address that an instruction calls. -/
def callee? : Op → Option SymbolAddr
  | .call addr => some addr
  | .callMember addr _ => some addr
  | _ => none

/-- An instruction gets as far as running the body of a routine. -/
def Calls (env : Environment) (op : Op) (machine : Machine) (body : Body)
    (inside : Machine) : Prop :=
  ∃ addr ref, callee? op = some addr ∧ env.scopes.resolve addr = .ok ref ∧
    Starts env ref machine body inside

/-- A run of a body, with `room` for further frames, comes to the instruction `op`
in the machine `here`, be it in the body itself or in a routine that it calls. -/
inductive Reaches (env : Environment) : (room : Nat) → Body → Machine → Op → Machine → Prop
  /-- A run comes to the first instruction of its body. -/
  | first {room : Nat} {op : Op} {rest : Body} {machine : Machine} (hop : op ≠ .leave) :
      Reaches env room (op :: rest) machine op machine
  /-- A run comes to what is reached after its first instruction went through. -/
  | later {room : Nat} {op next : Op} {rest : Body} {machine after here : Machine}
      (hop : op ≠ .leave) (hdone : perform env (nestedIn env room) op machine = .ok () after)
      (hrest : Reaches env room rest after next here) :
      Reaches env room (op :: rest) machine next here
  /-- A run comes to what is reached in a routine that its first instruction calls. -/
  | within {room : Nat} {op next : Op} {rest body : Body} {machine inside here : Machine}
      (hcalls : Calls env op machine body inside)
      (hbody : Reaches env room body inside next here) :
      Reaches env (room + 1) (op :: rest) machine next here

/-- A call of the symbol as a member of a `receiver` converts `value` to a text that
tells what it is. Under a type of truth values the text does not: it tells no more
than whether the value counts as true. -/
def Converts (env : Environment) (ref : SymbolRef) (receiver : TypeId) (machine : Machine)
    (value : Value) : Prop :=
  NamesMember env ref .toStr ∧ machine.stack.head? = some value ∧
    ∃ code, machine.types.code receiver = .ok code ∧ code ≠ .bool

/-- Some instruction of a run converts `value` to a text. -/
def ConvertsWithin (env : Environment) (room : Nat) (body : Body) (machine : Machine)
    (value : Value) : Prop :=
  ∃ addr receiver here ref, Reaches env room body machine (.callMember addr receiver) here ∧
    env.scopes.resolve addr = .ok ref ∧ Converts env ref receiver here value

/-- What is converted after the first instruction is converted by the run. -/
theorem ConvertsWithin.of_rest {env : Environment} {room : Nat} {op : Op} {rest : Body}
    {machine after : Machine} {value : Value} (hop : op ≠ .leave)
    (hdone : perform env (nestedIn env room) op machine = .ok () after)
    (hrest : ConvertsWithin env room rest after value) :
    ConvertsWithin env room (op :: rest) machine value := by
  obtain ⟨addr, receiver, here, ref, hreach, hrest⟩ := hrest
  exact ⟨addr, receiver, here, ref, .later hop hdone hreach, hrest⟩

/-- What is converted in a routine that the first instruction calls is converted by
the run. -/
theorem ConvertsWithin.of_call {env : Environment} {room : Nat} {op : Op} {rest body : Body}
    {machine inside : Machine} {value : Value} (hcalls : Calls env op machine body inside)
    (hbody : ConvertsWithin env room body inside value) :
    ConvertsWithin env (room + 1) (op :: rest) machine value := by
  obtain ⟨addr, receiver, here, ref, hreach, hrest⟩ := hbody
  exact ⟨addr, receiver, here, ref, .within hcalls hreach, hrest⟩

/-- A run of a body without calls comes to instructions of this body only. -/
theorem Reaches.mem_of_callee?_eq_none {env : Environment} {room : Nat} {body : Body}
    {machine here : Machine} {op : Op} (hreaches : Reaches env room body machine op here)
    (hbody : ∀ op ∈ body, callee? op = none) : op ∈ body := by
  induction hreaches with
  | first => exact List.mem_cons_self
  | later hop hdone hrest ih =>
      exact List.mem_cons_of_mem _ (ih fun op hop => hbody op (List.mem_cons_of_mem _ hop))
  | within hcalls =>
      obtain ⟨addr, ref, hcallee, -, -⟩ := hcalls
      rw [hbody _ List.mem_cons_self] at hcallee
      cases hcallee

theorem not_convertsWithin_of_callee?_eq_none {env : Environment} {room : Nat} {body : Body}
    (hbody : ∀ op ∈ body, callee? op = none) (machine : Machine) (value : Value) :
    ¬ ConvertsWithin env room body machine value := by
  rintro ⟨addr, receiver, here, ref, hreaches, -⟩
  have hcallee := hbody _ (hreaches.mem_of_callee?_eq_none hbody)
  cases hcallee

/-- What a machine can be asked to do: to run a body, or to call a routine whose
arguments have been pushed. -/
inductive Task where
  | body (body : Body)
  | routine (ref : SymbolRef) (receiver : Option TypeId)

namespace Task

/-- Carry out a task. A call answers the type of its result. -/
def perform (env : Environment) : Task → Exec (Option TypeId)
  | .body code => do
    run env code
    return none
  | .routine ref receiver => do
    let type ← call env ref receiver
    return some type

/-- Carrying out the task converts `value` to a text, at once or in some routine
that is called. -/
def Converts (env : Environment) (machine : Machine) (value : Value) : Task → Prop
  | .body code => ConvertsWithin env (machine.room env) code machine value
  | .routine ref receiver =>
    (∃ type, receiver = some type ∧ Machine.Converts env ref type machine value) ∨
      ∃ fewer code inside, machine.room env = fewer + 1 ∧
        Starts env ref machine code inside ∧ ConvertsWithin env fewer code inside value

/-- Without the member that makes a text nothing is converted to one. -/
theorem not_converts {env : Environment} (hnone : ∀ ref, ¬ NamesMember env ref .toStr)
    (task : Task) (machine : Machine) (value : Value) : ¬ task.Converts env machine value := by
  cases task with
  | body code =>
      rintro ⟨_, _, _, ref, -, -, hmember, -⟩
      exact hnone ref hmember
  | routine ref receiver =>
      rintro (⟨_, -, hmember, -⟩ | ⟨_, _, _, -, -, _, _, _, other, -, -, hmember, -⟩)
      · exact hnone ref hmember
      · exact hnone other hmember

end Task

end ScopeMachine.Machine
