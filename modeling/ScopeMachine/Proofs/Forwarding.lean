/-
# Var parameters that are passed on

A var parameter can be passed on to another routine, and from there to the next, as
often as one likes and to the same routine again. Addresses are forwarded and never
chained: what is bound at the end is the address that was taken in the beginning, of
the variable in the frame where it lived then, even if newer frames for the same scope
have come on top. So the parameter at the end stands for this variable alone.
-/

import ScopeMachine.Proofs.Frames
import ScopeMachine.Proofs.Tracing

namespace ScopeMachine

open Machine Outcome

namespace Machine

/-- The innermost frame binds a parameter to an address. -/
def Binds (machine : Machine) (parameter : SymbolRef) (target : VariableAddress) : Prop :=
  ∃ frame, machine.frames.back? = some frame ∧
    frame.locals.get? parameter = some (.address target)

/-- The routine has the var parameter, and its frames are for the scope of it. -/
def TakesVar (env : Environment) (routine parameter : SymbolRef) : Prop :=
  ∃ symbol kind details bound, env.scopes.symbol routine = .ok symbol ∧
    symbol.defn = .routine kind details ∧ kind ≠ .program ∧
    details.scope = some parameter.scope ∧ parameter ∈ details.parameters ∧
    env.scopes.symbol parameter = .ok bound ∧ bound.defn = .varParameter

/-- A body with `room` for further frames goes on within its own frame until `later` is
left of it. -/
inductive Proceeds (env : Environment) (room : Nat) : Body → Machine → Body → Machine → Prop
  /-- Nothing is carried out. -/
  | refl {body : Body} {machine : Machine} : Proceeds env room body machine body machine
  /-- The first instruction goes through, with all that it calls. -/
  | step {op : Op} {rest later : Body} {machine after here : Machine} (hop : op ≠ .leave)
      (hdone : perform env (nestedIn env room) op machine = .ok () after)
      (hrest : Proceeds env room rest after later here) :
      Proceeds env room (op :: rest) machine later here

/-- With `ops` left of it a body takes the address of `source` in the machine `here`, and
goes on until it calls a routine with a var parameter, which is then bound to this address.
The routine begins to run `body` in the machine `inside`. -/
inductive Hands (env : Environment) (room : Nat) (source : SymbolRef) (here : Machine)
    (body : Body) (inside : Machine) (parameter : SymbolRef) (target : VariableAddress) :
    (ops : Body) → Prop
  | intro {addr called : SymbolAddr} {routine : SymbolRef} {op : Op} {rest later : Body}
      {pushed calling : Machine} (haddr : env.scopes.resolve addr = .ok source)
      (htaken : perform env (nestedIn env room) (.fetchAddress addr) here = .ok () pushed)
      (htarget : pushed.stack.head? = some (.address target))
      (hproceeds : Proceeds env room rest pushed (op :: later) calling)
      (hcallee : callee? op = some called) (hcalled : env.scopes.resolve called = .ok routine)
      (hstarts : Starts env routine calling body inside)
      (hparameter : TakesVar env routine parameter) (hbinds : inside.Binds parameter target) :
      Hands env room source here body inside parameter target (.fetchAddress addr :: rest)

/-- The address of `source` was taken in the machine `taken` and handed to a routine, which
may have handed it on, and so forth. The last of these routines begins to run `body` in the
machine `inside` with its parameter bound, and with `room` for further frames. -/
inductive Passed (env : Environment) (source : SymbolRef) (taken : Machine) :
    (room : Nat) → (body : Body) → (inside : Machine) → (parameter : SymbolRef) →
      (target : VariableAddress) → Prop
  /-- The address is handed to the first routine. -/
  | first {room : Nat} {ops body : Body} {inside : Machine} {parameter : SymbolRef}
      {target : VariableAddress}
      (hands : Hands env (room + 1) source taken body inside parameter target ops) :
      Passed env source taken room body inside parameter target
  /-- A routine goes on for a while and hands on its parameter while it is still bound. -/
  | next {room : Nat} {code ops body : Body} {started here inside : Machine}
      {parameter onward : SymbolRef} {target reached : VariableAddress}
      (hpassed : Passed env source taken (room + 1) code started parameter target)
      (hproceeds : Proceeds env (room + 1) code started ops here)
      (hbinds : here.Binds parameter target)
      (hands : Hands env (room + 1) parameter here body inside onward reached ops) :
      Passed env source taken room body inside onward reached

/-- In some machine a var parameter stands for the variable at an address. -/
structure StandsFor (env : Environment) (parameter : SymbolRef) (address : VariableAddress)
    (here : Machine) : Prop where
  forwards : ∀ room addr, env.scopes.resolve addr = .ok parameter →
    perform env (nestedIn env room) (.fetchAddress addr) here =
      .ok () { here with stack := .address address :: here.stack }
  fetches : ∀ value, here.slot? address = some value → env.Announces .fetch here.types →
    ∃ sink, fetch env parameter here = .ok value (here.withSink sink)
  unbound : here.slot? address = none → ∃ symbol, env.scopes.symbol parameter = .ok symbol ∧
    fetch env parameter here = .error (.unboundVariable symbol.name) here
  stores : ∀ value, env.Announces .store here.types → ∃ sink after,
    store env parameter value here = .ok () after ∧
      after = (here.setSlot address value).withSink sink ∧ after.slot? address = some value ∧
      (∀ other, other ≠ address → after.slot? other = here.slot? other) ∧
      after.frameScopes = here.frameScopes

variable {env : Environment} {room : Nat} {source parameter : SymbolRef} {symbol : Symbol}
variable {address target : VariableAddress} {machine taken here inside : Machine}
variable {body ops : Body}

/-! ## Frames on the way -/

theorem Proceeds.frameScopes_eq (hproceeds : Proceeds env room body machine ops here) :
    here.frameScopes = machine.frameScopes := by
  induction hproceeds with
  | refl => rfl
  | @step op rest later machine after here hop hdone hrest ih =>
      have hscopes := frameScopes_perform env room machine op
      rw [hdone] at hscopes
      exact ih.trans hscopes

/-- A routine with a var parameter begins in a frame for the scope of the parameter. -/
theorem frameScopes_of_starts {routine : SymbolRef} (htakes : TakesVar env routine parameter)
    (hstarts : Starts env routine machine body inside) :
    inside.frameScopes = machine.frameScopes ++ [some parameter.scope] := by
  obtain ⟨symbol, kind, details, bound, hsymbol, hdefn, hkind, hscope, -⟩ := htakes
  obtain ⟨other, kind', details', arguments, popped, announced, hother, hdefn', -, hpopped,
    hannounced, rfl⟩ := hstarts
  obtain rfl : symbol = other := Except.ok.inj (hsymbol.symm.trans hother)
  cases hdefn.symm.trans hdefn'
  have hframe : frameScope kind details = some parameter.scope := by
    cases kind with
    | program => exact absurd rfl hkind
    | procedure | function => exact hscope
  have hframes := frames_popOperands machine symbol.name details.parameters.length
  obtain ⟨here, hhere, hkept⟩ := exists_announce env popped .routine (.entered symbol.name)
  rw [hannounced] at hhere
  rw [hpopped] at hframes
  cases hhere
  have hscopes : announced.frameScopes = machine.frameScopes :=
    congrArg (fun frames => frames.toList.map Frame.scope) (hkept.trans hframes)
  rw [frameScopes_entering, hscopes, hframe]

/-! ## One link of the chain -/

/-- What is pushed is the address that the symbol stands for. -/
theorem perform_fetchAddress {addr : SymbolAddr} (haddr : env.scopes.resolve addr = .ok source)
    (hsymbol : env.scopes.symbol source = .ok symbol) (nested : Nested) (here : Machine) :
    perform env nested (.fetchAddress addr) here = .ok ()
      { here with stack := .address (here.addressOf symbol.defn source) :: here.stack } := by
  simp only [perform, resolve, haddr, ofScopes_ok_bind, Machine.fetchAddress, hsymbol]
  rfl

/-- In a frame for its scope a var parameter that is bound stands for what it is bound to. -/
theorem addressOf_of_binds
    (hlast : machine.frameScopes.getLast? = some (some parameter.scope))
    (hbinds : machine.Binds parameter target) :
    machine.addressOf .varParameter parameter = target := by
  obtain ⟨frame, hframe, hheld⟩ := hbinds
  have hslot : machine.slot? (machine.ownAddress parameter) = some (.address target) := by
    rw [ownAddress_of_last hlast, slot?_frame, ← Array.back?_eq_getElem?, hframe]
    exact hheld
  simp only [addressOf, referent?, hslot, Option.getD_some]

namespace Hands

theorem target_eq (hands : Hands env room source here body inside parameter target ops)
    (hsymbol : env.scopes.symbol source = .ok symbol) :
    target = here.addressOf symbol.defn source := by
  obtain ⟨haddr, htaken, htarget, -⟩ := hands
  rw [perform_fetchAddress haddr hsymbol] at htaken
  cases htaken
  cases htarget
  rfl

theorem frameScopes_eq (hands : Hands env room source here body inside parameter target ops) :
    inside.frameScopes = here.frameScopes ++ [some parameter.scope] := by
  obtain ⟨-, htaken, -, hproceeds, -, -, hstarts, htakes, -⟩ := hands
  have hcalling := (Proceeds.step (by simp) htaken hproceeds).frameScopes_eq
  rw [frameScopes_of_starts htakes hstarts, hcalling]

end Hands

/-- A parameter is bound to the address that was taken in the beginning, in the newest of
the frames that came on top since then. -/
structure Forwarded (env : Environment) (address : VariableAddress) (taken inside : Machine)
    (parameter : SymbolRef) (target : VariableAddress) : Prop where
  target : target = address
  frames : taken.frameScopes <+: inside.frameScopes
  last : inside.frameScopes.getLast? = some (some parameter.scope)
  symbol : ∃ symbol, env.scopes.symbol parameter = .ok symbol ∧ symbol.defn = .varParameter

/-- One link more. -/
theorem Forwarded.of_hands (hands : Hands env room source here body inside parameter target ops)
    (hsymbol : env.scopes.symbol source = .ok symbol)
    (haddress : here.addressOf symbol.defn source = address)
    (hframes : taken.frameScopes <+: here.frameScopes) :
    Forwarded env address taken inside parameter target where
  target := (hands.target_eq hsymbol).trans haddress
  frames := by
    rw [hands.frameScopes_eq]
    exact hframes.trans (List.prefix_append _ _)
  last := by rw [hands.frameScopes_eq, List.getLast?_concat]
  symbol := by
    obtain ⟨-, -, -, -, -, -, -, ⟨-, -, -, bound, -, -, -, -, -, hbound⟩, -⟩ := hands
    exact ⟨bound, hbound⟩

/-- What is bound at the end of a chain is the address that was taken in the beginning. -/
theorem Passed.forwarded (hsymbol : env.scopes.symbol source = .ok symbol)
    (hvariable : taken.referent? symbol.defn source = none)
    (hpassed : Passed env source taken room body inside parameter target) :
    Forwarded env (taken.ownAddress source) taken inside parameter target := by
  induction hpassed with
  | first hands =>
      apply Forwarded.of_hands hands hsymbol _ List.prefix_rfl
      rw [addressOf, hvariable, Option.getD_none]
  | next hpassed hproceeds hbinds hands ih =>
      obtain ⟨bound, hbound, hdefn⟩ := ih.symbol
      have hscopes := hproceeds.frameScopes_eq
      apply Forwarded.of_hands hands hbound
      · rw [hdefn, ← ih.target]
        exact addressOf_of_binds (hscopes ▸ ih.last) hbinds
      · exact hscopes ▸ ih.frames

/-! ## What stands for a variable -/

/-- An announcement that can be made changes nothing but the output. -/
theorem exists_sink_announce {hook : Hook} (piece : TypeStore → Except TypeRefusal Piece)
    (hmade : env.settings.trace.has hook → ∃ made, piece machine.types = .ok made) :
    ∃ sink, announce env hook piece machine = .ok () (machine.withSink sink) := by
  unfold announce
  by_cases hhas : env.settings.trace.has hook
  · obtain ⟨made, hmade⟩ := hmade hhas
    rw [if_pos hhas, hmade]
    exact ⟨machine.channels.sink.append made, rfl⟩
  · rw [if_neg hhas]
    exact ⟨machine.channels.sink, by rw [withSink, Channels.withSink_self]⟩

/-- A symbol that is not a constant has the value that is held where it stands. -/
theorem valueOf_of_held (haddress : machine.addressOf symbol.defn parameter = address)
    (hconstant : symbol.defn ≠ .constant) {value : Value}
    (hheld : machine.slot? address = some value) :
    valueOf symbol parameter machine = .ok value machine := by
  simp only [valueOf_eq_fetchVariable hconstant, fetchVariable, haddress, hheld]

section Variable

variable (hsymbol : env.scopes.symbol parameter = .ok symbol)
  (haddress : machine.addressOf symbol.defn parameter = address)

include hsymbol haddress

/-- The types are asked only if fetches are traced. -/
theorem fetch_of_slot (hconstant : symbol.defn ≠ .constant) {value : Value}
    (hheld : machine.slot? address = some value)
    (hannounces : env.Announces .fetch machine.types) :
    ∃ sink, fetch env parameter machine = .ok value (machine.withSink sink) := by
  have hvalue := valueOf_of_held haddress hconstant hheld
  have hmade (hhas : env.settings.trace.has .fetch) :
      ∃ made, symbol.fetchPiece value machine.types env.scopes = .ok made := by
    obtain ⟨hreachable, hknown⟩ := hannounces hhas
    obtain ⟨subject, text, hpiece⟩ :=
      Symbol.exists_piece hreachable hknown hsymbol value .fetched
    exact ⟨_, hpiece⟩
  obtain ⟨sink, hsink⟩ :=
    exists_sink_announce (fun types => symbol.fetchPiece value types env.scopes) hmade
  refine ⟨sink, ?_⟩
  simp only [fetch, hsymbol, ofScopes_ok_bind]
  simp only [bind, EStateM.bind, hvalue, hsink]
  rfl

/-- A fetch that goes through answers what the variable holds. -/
theorem fetch_answers (hconstant : symbol.defn ≠ .constant) {value answer : Value}
    {after : Machine} (hheld : machine.slot? address = some value)
    (hfetch : fetch env parameter machine = .ok answer after) : answer = value := by
  have hvalue := valueOf_of_held haddress hconstant hheld
  simp only [fetch, hsymbol, ofScopes_ok_bind] at hfetch
  simp only [bind, EStateM.bind, hvalue] at hfetch
  split at hfetch <;> cases hfetch
  rfl

theorem fetch_of_empty (hconstant : symbol.defn ≠ .constant)
    (hheld : machine.slot? address = none) :
    fetch env parameter machine = .error (.unboundVariable symbol.name) machine := by
  have hvalue : valueOf symbol parameter machine =
      .error (.unboundVariable symbol.name) machine := by
    simp only [valueOf_eq_fetchVariable hconstant, fetchVariable, haddress, hheld]
  simp only [fetch, hsymbol, ofScopes_ok_bind]
  simp only [bind, EStateM.bind, hvalue]

theorem store_eq (value : Value) (hannounces : env.Announces .store machine.types) :
    ∃ sink, store env parameter value machine =
      .ok () ((machine.setSlot address value).withSink sink) := by
  have hmade (hhas : env.settings.trace.has .store) :
      ∃ made, symbol.storePiece value machine.types env.scopes = .ok made := by
    obtain ⟨htypes, hknown⟩ := hannounces hhas
    obtain ⟨subject, text, hpiece⟩ := Symbol.exists_piece htypes hknown hsymbol value .stored
    exact ⟨_, hpiece⟩
  obtain ⟨sink, hsink⟩ :=
    exists_sink_announce (fun types => symbol.storePiece value types env.scopes) hmade
  refine ⟨sink, ?_⟩
  have hset : (machine.withSink sink).setSlot address value =
      (machine.setSlot address value).withSink sink := by
    cases hplace : address.place <;> simp only [setSlot, hplace] <;> rfl
  have hsame : (machine.withSink sink).addressOf symbol.defn parameter = address := haddress
  simp only [store, hsymbol, ofScopes_ok_bind]
  simp only [bind, EStateM.bind, hsink]
  show EStateM.Result.ok () ((machine.withSink sink).setSlot
    ((machine.withSink sink).addressOf symbol.defn parameter) value) = _
  rw [hsame, hset]

end Variable

/-- A var parameter stands for the variable at the address that it leads to. -/
theorem standsFor_of_addressOf (hsymbol : env.scopes.symbol parameter = .ok symbol)
    (hdefn : symbol.defn = .varParameter)
    (haddress : machine.addressOf .varParameter parameter = address)
    (hlives : machine.Lives address) : StandsFor env parameter address machine := by
  rw [← hdefn] at haddress
  have hconstant : symbol.defn ≠ .constant := by simp [hdefn]
  exact {
    forwards := fun room addr haddr => by rw [perform_fetchAddress haddr hsymbol, haddress]
    fetches := fun value hheld hannounces =>
      fetch_of_slot hsymbol haddress hconstant hheld hannounces
    unbound := fun hheld => ⟨symbol, hsymbol, fetch_of_empty hsymbol haddress hconstant hheld⟩
    stores := fun value hannounces => by
      obtain ⟨sink, hstore⟩ := store_eq hsymbol haddress value hannounces
      exact ⟨sink, _, hstore, rfl, slot?_setSlot_self hlives value,
        fun other hother => slot?_setSlot_of_ne hother value, frameScopes_setSlot address value⟩ }

/-- However far the address of a variable is passed on, a var parameter that is bound to it
stands for the variable in the place where it lived when its address was taken. -/
theorem standsFor_of_passed (env : Environment) {source : SymbolRef} {symbol : Symbol}
    {taken inside here : Machine} {room : Nat} {body ops : Body} {parameter : SymbolRef}
    {target : VariableAddress} (hsymbol : env.scopes.symbol source = .ok symbol)
    (hvariable : taken.referent? symbol.defn source = none)
    (hpassed : Passed env source taken room body inside parameter target)
    (hproceeds : Proceeds env room body inside ops here) (hbinds : here.Binds parameter target) :
    target = taken.ownAddress source ∧ taken.frameScopes <+: here.frameScopes ∧
      StandsFor env parameter (taken.ownAddress source) here := by
  obtain ⟨htarget, hframes, hlast, bound, hbound, hdefn⟩ := hpassed.forwarded hsymbol hvariable
  have hscopes := hproceeds.frameScopes_eq
  rw [← hscopes] at hframes hlast
  refine ⟨htarget, hframes, ?_⟩
  rw [← htarget]
  apply standsFor_of_addressOf hbound hdefn (addressOf_of_binds hlast hbinds)
  intro depth hplace
  rw [htarget] at hplace
  have hless := lives_ownAddress taken source depth hplace
  have hsizes := hframes.length_le
  rw [length_frameScopes, length_frameScopes] at hsizes
  exact Nat.lt_of_lt_of_le hless hsizes

/-- A session with a procedure that passes on its var parameter `p` to itself, and that has
a variable `x` in the same scope. -/
def relaying : Environment where
  scopes := ⟨#[
    { index := ⟨0⟩
      symbols := #[
        { name := "relay", home := ⟨0⟩
          defn := .routine .procedure
            { code := .interpreted [.fetchAddress ⟨⟨1⟩, ⟨0⟩⟩, .call ⟨⟨0⟩, ⟨0⟩⟩]
              parameterCount := 1, parameters := [⟨⟨1⟩, ⟨0⟩⟩], scope := some ⟨1⟩ } }]
      names := .node .leaf "relay" ⟨0⟩ .leaf
      order := some #[⟨0⟩]
      ranks := #[some ⟨0⟩] },
    { index := ⟨1⟩
      symbols := #[
        { name := "p", home := ⟨1⟩, type := some .int, defn := .varParameter },
        { name := "x", home := ⟨1⟩, type := some .int, defn := .variable }]
      names := .node .leaf "p" ⟨0⟩ (.node .leaf "x" ⟨1⟩ .leaf)
      order := some #[⟨0⟩, ⟨1⟩]
      ranks := #[some ⟨0⟩, some ⟨1⟩] }]⟩
  settings := {}

/-- The variable `x` of the outermost activation. -/
def relayedVariable : VariableAddress := ⟨⟨⟨1⟩, ⟨1⟩⟩, .frame 0⟩

/-- A machine in an activation whose `x` is 5, with some activations on top of it in which
`p` is bound to that `x`. -/
def relayed : (count : Nat) → Machine
  | 0 => { frames := #[{ scope := some ⟨1⟩, locals := Slots.bind [⟨⟨1⟩, ⟨1⟩⟩] [.int 5] }] }
  | count + 1 => (relayed count).entering
      { scope := some ⟨1⟩, locals := Slots.bind [⟨⟨1⟩, ⟨0⟩⟩] [.address relayedVariable] }

theorem standsFor_of_passed_relaying :
    let body : Body := [.fetchAddress ⟨⟨1⟩, ⟨0⟩⟩, .call ⟨⟨0⟩, ⟨0⟩⟩]
    Passed relaying ⟨⟨1⟩, ⟨1⟩⟩ (relayed 0) 0 body (relayed 2) ⟨⟨1⟩, ⟨0⟩⟩ relayedVariable ∧
      StandsFor relaying ⟨⟨1⟩, ⟨0⟩⟩ relayedVariable (relayed 2) ∧
      fetch relaying ⟨⟨1⟩, ⟨0⟩⟩ (relayed 2) = .ok (.int 5) (relayed 2) := by
  intro body
  have htakes : TakesVar relaying ⟨⟨0⟩, ⟨0⟩⟩ ⟨⟨1⟩, ⟨0⟩⟩ := by
    refine ⟨_, _, _, _, rfl, rfl, nofun, rfl, List.mem_cons_self, rfl, rfl⟩
  have hbinds (count : Nat) : (relayed (count + 1)).Binds ⟨⟨1⟩, ⟨0⟩⟩ relayedVariable :=
    ⟨_, Array.back?_push, rfl⟩
  have hstarts (count : Nat) (hcount : (relayed count).stack = []) :
      Starts relaying ⟨⟨0⟩, ⟨0⟩⟩ { relayed count with stack := [.address relayedVariable] } body
        (relayed (count + 1)) := by
    refine ⟨_, _, _, #v[.address relayedVariable], relayed count, relayed count, rfl, rfl, rfl,
      ?_, rfl, rfl⟩
    have hempty : { relayed count with stack := [] } = relayed count := by rw [← hcount]
    exact congrArg (EStateM.Result.ok _) hempty
  have hfirst : Hands relaying 2 ⟨⟨1⟩, ⟨1⟩⟩ (relayed 0) body (relayed 1) ⟨⟨1⟩, ⟨0⟩⟩
      relayedVariable [.fetchAddress ⟨⟨1⟩, ⟨1⟩⟩, .call ⟨⟨0⟩, ⟨0⟩⟩] :=
    .intro rfl rfl rfl .refl rfl rfl (hstarts 0 rfl) htakes (hbinds 0)
  have hnext : Hands relaying 1 ⟨⟨1⟩, ⟨0⟩⟩ (relayed 1) body (relayed 2) ⟨⟨1⟩, ⟨0⟩⟩
      relayedVariable body :=
    .intro rfl rfl rfl .refl rfl rfl (hstarts 1 rfl) htakes (hbinds 1)
  have hpassed : Passed relaying ⟨⟨1⟩, ⟨1⟩⟩ (relayed 0) 0 body (relayed 2) ⟨⟨1⟩, ⟨0⟩⟩
      relayedVariable := .next (.first hfirst) .refl (hbinds 0) hnext
  have hstands := (standsFor_of_passed relaying rfl rfl hpassed .refl (hbinds 1)).2.2
  exact ⟨hpassed, hstands, rfl⟩

end Machine

end ScopeMachine
