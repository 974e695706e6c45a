/-
# Runs under a simulation

Every instruction keeps machines in correspondence, calls included, and so does
a run of any body at any depth. The induction is on how many frames may still be
added, and within that on the body; it is done here once for all simulations.
-/

import ScopeMachine.Proofs.Simulation.Members

namespace ScopeMachine.Simulation

open Machine Outcome

variable {View : Type} {first second : Environment} (sim : Simulation View first second)
variable {view : View} {m n : Machine} {r s : SymbolRef}

/-! ## Variables -/

theorem addressOf (hmachines : sim.machines view m n) (hrefs : sim.refs r s)
    {defn defn' : Definition} (hdefn : Definition.Corresponds sim.refs defn defn') :
    sim.addresses (m.addressOf defn r) (n.addressOf defn' s) := by
  have hown := sim.own hmachines hrefs
  cases hdefn with
  | routine kind hroutines => exact hown
  | other hnone =>
      cases defn with
      | varParameter =>
          have hslot := sim.slot hmachines hown
          simp only [Machine.addressOf, Machine.referent?]
          rcases hm : m.slot? (m.ownAddress r) with _ | held <;>
            rcases hn : n.slot? (n.ownAddress s) with _ | held' <;> rw [hm, hn] at hslot
          · exact hown
          · cases hslot
          · cases hslot
          · cases hslot with
            | some hvalues =>
                cases hvalues with
                | address htargets => exact htargets
                | plain hplain =>
                    cases held with
                    | address target => exact absurd rfl (hplain target)
                    | _ => exact hown
      | _ => exact hown

theorem fetchConstant (hmachines : sim.machines view m n) {x y : Symbol}
    (hsymbols : Symbol.Corresponds sim.refs x y) :
    Agree (sim.machines view) (Value.Corresponds sim.addresses) (Machine.fetchConstant x m)
      (Machine.fetchConstant y n) := by
  have hcode : Alike Eq (m.types.code (x.type.getD .int)) (n.types.code (y.type.getD .int)) := by
    rw [sim.types hmachines, TypeStore.code_rename, hsymbols.type]
    exact .refl (fun _ => rfl) _
  apply Agree.andThen (Agree.askTypes hcode hmachines)
  intro code _ m' n' _ hcode hafter
  subst hcode
  have hvalue : y.constantValue code = x.constantValue code := by
    cases code <;> simp [Symbol.constantValue, Symbol.constantValue.reading, hsymbols.value]
  rw [hvalue]
  cases hconstant : x.constantValue code with
  | none => exact .throw hafter
  | some value =>
      refine .pure (.plain fun target htarget => ?_) hafter
      cases code <;> simp [Symbol.constantValue] at hconstant <;> simp [← hconstant] at htarget

theorem fetchVariable (hmachines : sim.machines view m n) (hrefs : sim.refs r s) {x y : Symbol}
    (hsymbols : Symbol.Corresponds sim.refs x y) :
    Agree (sim.machines view) (Value.Corresponds sim.addresses) (Machine.fetchVariable x r m)
      (Machine.fetchVariable y s n) := by
  have hslot := sim.slot hmachines (sim.addressOf hmachines hrefs hsymbols.defn)
  unfold Machine.fetchVariable
  cases hm : m.slot? (m.addressOf x.defn r) <;> cases hn : n.slot? (n.addressOf y.defn s) <;>
    rw [hm, hn] at hslot
  · exact ⟨by rw [hsymbols.name], hmachines⟩
  · cases hslot
  · cases hslot
  · cases hslot with
    | some hvalues => exact ⟨hvalues, hmachines⟩

/-- The symbols of corresponding references agree, and what is looked up is known. -/
theorem lookup (hmachines : sim.machines view m n) (hrefs : sim.refs r s) :
    Agree (sim.machines view) (fun x y => first.scopes.symbol r = .ok x ∧
        second.scopes.symbol s = .ok y ∧ Symbol.Corresponds sim.refs x y)
      (ofScopes (first.scopes.symbol r) m) (ofScopes (second.scopes.symbol s) n) := by
  have hfound := sim.symbol hrefs
  refine .ofScopes ?_ hmachines
  cases hx : first.scopes.symbol r <;> cases hy : second.scopes.symbol s <;>
    rw [hx, hy] at hfound
  · exact hfound
  · exact hfound.elim
  · exact hfound.elim
  · exact ⟨rfl, rfl, hfound⟩

theorem valueOf (hmachines : sim.machines view m n) (hrefs : sim.refs r s) {x y : Symbol}
    (hsymbols : Symbol.Corresponds sim.refs x y) :
    Agree (sim.machines view) (Value.Corresponds sim.addresses) (Machine.valueOf x r m)
      (Machine.valueOf y s n) := by
  have hvariable := sim.fetchVariable hmachines hrefs hsymbols
  have hconstant := sim.fetchConstant hmachines hsymbols
  have hdefn := hsymbols.defn
  unfold Machine.valueOf
  generalize x.defn = defn, y.defn = defn' at hdefn ⊢
  cases hdefn with
  | routine kind hroutines => exact hvariable
  | other hnone =>
      cases defn with
      | constant => exact hconstant
      | _ => exact hvariable

theorem fetch (hmachines : sim.machines view m n) (hrefs : sim.refs r s) :
    Agree (sim.machines view) (Value.Corresponds sim.addresses) (Machine.fetch first r m)
      (Machine.fetch second s n) := by
  apply Agree.andThen (sim.lookup hmachines hrefs)
  intro x y m₁ n₁ _ hfound h₁
  obtain ⟨hx, hy, hsymbols⟩ := hfound
  apply Agree.andThen (sim.valueOf h₁ hrefs hsymbols)
  intro v w m₂ n₂ _ hvalues h₂
  apply Agree.andThen (sim.fetched h₂ hx hy hrefs hvalues)
  intro _ _ m₃ n₃ _ _ h₃
  exact .pure hvalues h₃

theorem store (hmachines : sim.machines view m n) (hrefs : sim.refs r s) {v w : Value}
    (hvalues : Value.Corresponds sim.addresses v w) :
    Agree (sim.machines view) Eq (Machine.store first r v m) (Machine.store second s w n) := by
  apply Agree.andThen (sim.lookup hmachines hrefs)
  intro x y m₁ n₁ _ hfound h₁
  obtain ⟨hx, hy, hsymbols⟩ := hfound
  apply Agree.andThen (sim.stored h₁ hx hy hrefs hvalues)
  intro _ _ m₂ n₂ _ _ h₂
  exact .modify (sim.setSlot h₂ (sim.addressOf h₂ hrefs hsymbols.defn) hvalues)

theorem fetchAddress (hmachines : sim.machines view m n) (hrefs : sim.refs r s) :
    Agree (sim.machines view) (Value.Corresponds sim.addresses)
      (Machine.fetchAddress first r m) (Machine.fetchAddress second s n) := by
  apply Agree.andThen (sim.lookup hmachines hrefs)
  intro x y m₁ n₁ _ hfound h₁
  exact ⟨.address (sim.addressOf h₁ hrefs hfound.2.2.defn), h₁⟩

/-! ## Arithmetic -/

theorem floatOperand {v w : Value} (hvalues : Value.Corresponds sim.addresses v w) :
    Arithmetic.floatOperand v = Arithmetic.floatOperand w := by
  cases hvalues <;> rfl

theorem intOperandOf {v w : Value} (hvalues : Value.Corresponds sim.addresses v w) :
    Arithmetic.intOperand v = Arithmetic.intOperand w := by
  cases hvalues <;> rfl

/-- The operands of arithmetic count as numbers only. -/
theorem apply_eq (operation : Arithmetic) {v v' w w' : Value}
    (hfirst : Value.Corresponds sim.addresses v w)
    (hsecond : Value.Corresponds sim.addresses v' w') :
    operation.apply v v' = operation.apply w w' := by
  simp only [Arithmetic.apply, hfirst.kind_eq, hsecond.kind_eq, sim.floatOperand hfirst,
    sim.floatOperand hsecond, sim.intOperandOf hfirst, sim.intOperandOf hsecond]

theorem arithmetic (hmachines : sim.machines view m n) (operation : Arithmetic) :
    Agree (sim.machines view) Eq (Machine.arithmetic operation m)
      (Machine.arithmetic operation n) := by
  apply Agree.andThen (sim.pop hmachines)
  intro v' w' m₁ n₁ _ hsecond h₁
  apply Agree.andThen (sim.pop h₁)
  intro v w m₂ n₂ _ hfirst h₂
  rw [sim.apply_eq operation hfirst hsecond]
  cases happly : operation.apply w w' with
  | error e => exact .throw h₂
  | ok result => exact sim.push h₂ (.plain (operation.apply_ne_address happly))

/-! ## Calls -/

theorem withFrame (hmachines : sim.machines view m n) {scope : Option ScopeIndex}
    {frame frame' : Frame} {work work' : Exec Unit}
    (hwork : Agree (sim.machines (sim.inner view scope)) Eq (work (m.entering frame))
      (work' (n.entering frame'))) :
    Agree (sim.machines view) Eq (Machine.withFrame frame work m)
      (Machine.withFrame frame' work' n) := by
  unfold Machine.withFrame
  unfold Machine.entering at hwork
  cases hm : work { m with frames := m.frames.push frame } <;>
    cases hn : work' { n with frames := n.frames.push frame' } <;> rw [hm, hn] at hwork
  · exact ⟨hwork.1, sim.leave hmachines hwork.2⟩
  · exact hwork.elim
  · exact hwork.elim
  · exact ⟨hwork.1, sim.leave hmachines hwork.2⟩

/-- Bodies of called routines agree wherever a call of `r` starts one. -/
def CalledAgree (room : Nat) (r : SymbolRef) (m : Machine) : Prop :=
  ∀ view' body inside inside', Starts first r m body inside →
    sim.machines view' inside inside' →
    Agree (sim.machines view') Eq (runWithin first room body inside)
      (runWithin second room body inside')

theorem callBody (hmachines : sim.machines view m n) (room : Nat) {x : Symbol}
    {kind : RoutineKind} {routine routine' : Routine} {body : Body}
    (hx : first.scopes.symbol r = .ok x) (hdefn : x.defn = .routine kind routine)
    (hcode : routine.code = .interpreted body)
    (hroutines : Routine.Corresponds sim.refs routine routine')
    (hcalled : ∀ fewer, room = fewer + 1 → sim.CalledAgree fewer r m) :
    Agree (sim.machines view) Eq
      (Machine.callBody first (nestedIn first room) x.name kind routine body m)
      (Machine.callBody second (nestedIn second room) x.name kind routine' body n) := by
  cases room with
  | zero =>
      show Agree _ _ (EStateM.Result.error _ m) (EStateM.Result.error _ n)
      rw [sim.callDepth]
      exact ⟨rfl, hmachines⟩
  | succ fewer =>
      have hparameters := hroutines.parameters
      have hcount := hparameters.length_eq
      have hscope : frameScope kind routine' = frameScope kind routine := by
        cases kind <;> simp [frameScope, hroutines.scope]
      simp only [Machine.callBody, nestedIn]
      rw [← hcount, hscope]
      apply Agree.andThen (sim.popOperands hmachines _ _)
      intro vs ws m₁ n₁ htaken hoperands h₁
      apply Agree.andThen (sim.announce h₁ rfl)
      intro _ _ m₂ n₂ hannounced _ h₂
      have hinside (scope : Option ScopeIndex) : sim.machines (sim.inner view scope)
          (m₂.entering { scope, locals := Slots.bind routine.parameters vs.toList })
          (n₂.entering { scope, locals := Slots.bind routine'.parameters ws.toList }) :=
        sim.enter h₂ hparameters hoperands
      have hstarts : Starts first r m body (m₂.entering
          { scope := frameScope kind routine
            locals := Slots.bind routine.parameters vs.toList }) :=
        ⟨x, kind, routine, vs, m₁, m₂, hx, hdefn, hcode, htaken, hannounced, rfl⟩
      apply Agree.andThen (sim.withFrame h₂ (hcalled fewer rfl _ _ _ _ hstarts (hinside _)))
      intro _ _ m₃ n₃ _ _ h₃
      exact sim.announce h₃ rfl

theorem callSymbol (hmachines : sim.machines view m n) (room : Nat) (hrefs : sim.refs r s)
    (receiver : Option TypeId)
    (hshows : ∀ type value, receiver = some type → Converts first r type m value →
      sim.shows value)
    (hcalled : ∀ fewer, room = fewer + 1 → sim.CalledAgree fewer r m) :
    Agree (sim.machines view) Eq (Machine.callSymbol first (nestedIn first room) r receiver m)
      (Machine.callSymbol second (nestedIn second room) s receiver n) := by
  apply Agree.andThen (sim.lookup hmachines hrefs)
  intro x y m₁ n₁ hfound hboth h₁
  obtain ⟨hx, rfl⟩ := ofScopes_eq_ok hfound
  have hsymbols := hboth.2.2
  have hdefn := hsymbols.defn
  rw [← hsymbols.type, ← hsymbols.name]
  cases hfirst : x.defn with
  | routine kind routine =>
      rw [hfirst] at hdefn
      obtain ⟨routine', hsecond, hroutines⟩ := hdefn.of_routine
      rw [hsecond]
      dsimp only
      rw [← hroutines.code]
      cases hcode : routine.code with
      | native member =>
          cases receiver with
          | none => exact .throw h₁
          | some type =>
              apply sim.callMember h₁
              intro hmember value code hhead hasked hother
              subst hmember
              exact hshows type value rfl
                ⟨⟨x, kind, routine, hx, hfirst, hcode⟩, hhead, code, hasked, hother⟩
      | interpreted body =>
          apply Agree.andThen (sim.callBody h₁ room hx hfirst hcode hroutines hcalled)
          intro _ _ m₂ n₂ _ _ h₂
          exact .pure rfl h₂
      | declared => exact .throw h₁
      | forward => exact .throw h₁
  | _ =>
      rw [hfirst] at hdefn
      rw [hdefn.of_none rfl]
      exact .throw h₁

/-! ## Instructions and bodies -/

/-- Instructions agree if the bodies that they call do. -/
theorem perform (hmachines : sim.machines view m n) (room : Nat) (op : Op)
    (hshows : ∀ addr receiver ref value, op = .callMember addr receiver →
      first.scopes.resolve addr = .ok ref → Converts first ref receiver m value →
        sim.shows value)
    (hcalled : ∀ fewer addr ref, room = fewer + 1 → callee? op = some addr →
      first.scopes.resolve addr = .ok ref → sim.CalledAgree fewer ref m) :
    Agree (sim.machines view) Eq (Machine.perform first (nestedIn first room) op m)
      (Machine.perform second (nestedIn second room) op n) := by
  have hresolved (addr : SymbolAddr) : Agree (sim.machines view) sim.refs
      (Machine.resolve first addr m) (Machine.resolve second addr n) :=
    .ofScopes (sim.resolve addr) hmachines
  cases op with
  | push literal =>
      apply sim.push hmachines
      cases literal <;> exact .plain (by simp [Value.ofLiteral])
  | fetch addr =>
      apply Agree.andThen (hresolved addr)
      intro r s m₁ n₁ _ hrefs h₁
      apply Agree.andThen (sim.fetch h₁ hrefs)
      intro v w m₂ n₂ _ hvalues h₂
      exact sim.push h₂ hvalues
  | fetchAddress addr =>
      apply Agree.andThen (hresolved addr)
      intro r s m₁ n₁ _ hrefs h₁
      apply Agree.andThen (sim.fetchAddress h₁ hrefs)
      intro v w m₂ n₂ _ hvalues h₂
      exact sim.push h₂ hvalues
  | store addr =>
      apply Agree.andThen (hresolved addr)
      intro r s m₁ n₁ _ hrefs h₁
      apply Agree.andThen (sim.pop h₁)
      intro v w m₂ n₂ _ hvalues h₂
      exact sim.store h₂ hrefs hvalues
  | call addr =>
      apply Agree.andThen (hresolved addr)
      intro r s m₁ n₁ hfound hrefs h₁
      obtain ⟨hr, rfl⟩ := ofScopes_eq_ok hfound
      apply Agree.andThen (sim.callSymbol h₁ room hrefs none (by simp)
        fun fewer hroom => hcalled fewer addr r hroom rfl hr)
      intro _ _ m₂ n₂ _ _ h₂
      exact .pure rfl h₂
  | callMember addr receiver =>
      apply Agree.andThen (hresolved addr)
      intro r s m₁ n₁ hfound hrefs h₁
      obtain ⟨hr, rfl⟩ := ofScopes_eq_ok hfound
      apply Agree.andThen (sim.callSymbol h₁ room hrefs (some receiver)
        (fun type value htype => by
          cases htype
          exact hshows addr receiver r value rfl hr)
        fun fewer hroom => hcalled fewer addr r hroom rfl hr)
      intro _ _ m₂ n₂ _ _ h₂
      exact .pure rfl h₂
  | statement line =>
      apply Agree.andThen (Agree.modify (sim.withLine line hmachines))
      intro _ _ m₁ n₁ _ _ h₁
      exact sim.announce h₁ rfl
  | arithmetic operation => exact sim.arithmetic hmachines operation
  | pop =>
      apply Agree.andThen (sim.pop hmachines)
      intro _ _ m₁ n₁ _ _ h₁
      exact .pure rfl h₁
  | leave => exact .pure rfl hmachines

/-- Bodies agree if the bodies that they call do. -/
theorem runOps (room : Nat)
    (hcalled : ∀ fewer view' body inside inside', room = fewer + 1 →
      (∀ value, ConvertsWithin first fewer body inside value → sim.shows value) →
      sim.machines view' inside inside' →
      Agree (sim.machines view') Eq (runWithin first fewer body inside)
        (runWithin second fewer body inside'))
    (body : Body) (hmachines : sim.machines view m n)
    (hshows : ∀ value, ConvertsWithin first room body m value → sim.shows value) :
    Agree (sim.machines view) Eq (Machine.runOps first (nestedIn first room) body m)
      (Machine.runOps second (nestedIn second room) body n) := by
  induction body generalizing m n with
  | nil => exact .pure rfl hmachines
  | cons op rest ih =>
      by_cases hop : op = .leave
      · subst hop
        exact .pure rfl hmachines
      · rw [runOps_cons first _ rest hop, runOps_cons second _ rest hop]
        have hop' : Agree (sim.machines view) Eq
            (Machine.perform first (nestedIn first room) op m)
            (Machine.perform second (nestedIn second room) op n) := by
          apply sim.perform hmachines
          · rintro addr receiver ref value rfl hresolve hconverts
            exact hshows value ⟨addr, receiver, m, ref, .first hop, hresolve, hconverts⟩
          · intro fewer addr ref hroom hcallee hresolve view' body inside inside' hstarts hinside
            subst hroom
            apply hcalled fewer view' body inside inside' rfl _ hinside
            intro value hvalue
            exact hshows value (.of_call ⟨addr, ref, hcallee, hresolve, hstarts⟩ hvalue)
        apply Agree.andThen hop'
        intro _ _ m₁ n₁ hdone _ h₁
        exact ih h₁ fun value hvalue => hshows value (.of_rest hop hdone hvalue)

/-- Bodies agree, however deeply the calls in them nest, unless they convert a value
that the simulation does not allow. -/
theorem runWithin (room : Nat) (body : Body) (hmachines : sim.machines view m n)
    (hshows : ∀ value, ConvertsWithin first room body m value → sim.shows value) :
    Agree (sim.machines view) Eq (Machine.runWithin first room body m)
      (Machine.runWithin second room body n) := by
  induction room generalizing view m n body with
  | zero =>
      rw [runWithin_eq, runWithin_eq]
      exact sim.runOps 0 (fun fewer _ _ _ _ hroom => by cases hroom) body hmachines hshows
  | succ room ih =>
      rw [runWithin_eq, runWithin_eq]
      apply sim.runOps (room + 1) _ body hmachines hshows
      intro fewer view' body inside inside' hroom hshows hinside
      obtain rfl : room = fewer := Nat.succ.inj hroom
      exact ih body hinside hshows

/-- Runs agree. -/
theorem run (hmachines : sim.machines view m n) (body : Body)
    (hshows : ∀ value, ConvertsWithin first (m.room first) body m value → sim.shows value) :
    Agree (sim.machines view) Eq (Machine.run first body m) (Machine.run second body n) := by
  have hroom : n.room second = m.room first := by
    simp [Machine.room, sim.callDepth, sim.depth hmachines]
  unfold Machine.run
  rw [hroom]
  exact sim.runWithin _ body hmachines hshows

/-- Calls of corresponding symbols agree. -/
theorem call (hmachines : sim.machines view m n) (hrefs : sim.refs r s)
    (receiver : Option TypeId)
    (hshows : ∀ type value, receiver = some type → Converts first r type m value →
      sim.shows value)
    (hwithin : ∀ fewer body inside value, m.room first = fewer + 1 →
      Starts first r m body inside → ConvertsWithin first fewer body inside value →
      sim.shows value) :
    Agree (sim.machines view) Eq (Machine.call first r receiver m)
      (Machine.call second s receiver n) := by
  have hroom : n.room second = m.room first := by
    simp [Machine.room, sim.callDepth, sim.depth hmachines]
  unfold Machine.call
  rw [hroom]
  apply sim.callSymbol hmachines _ hrefs receiver hshows
  intro fewer hfewer view' body inside inside' hstarts hinside
  exact sim.runWithin fewer body hinside fun value =>
    hwithin fewer body inside value hfewer hstarts

/-- Tasks agree that differ only in the reference of the routine that is called. -/
theorem body (hmachines : sim.machines view m n) (body : Body)
    (hshows : ∀ value, Task.Converts first m value (.body body) → sim.shows value) :
    Agree (sim.machines view) Eq ((Task.body body).perform first m)
      ((Task.body body).perform second n) := by
  apply Agree.andThen (sim.run hmachines body hshows)
  intro _ _ m₁ n₁ _ _ h₁
  exact .pure rfl h₁

theorem routine (hmachines : sim.machines view m n) (hrefs : sim.refs r s)
    (receiver : Option TypeId)
    (hshows : ∀ value, Task.Converts first m value (.routine r receiver) → sim.shows value) :
    Agree (sim.machines view) Eq ((Task.routine r receiver).perform first m)
      ((Task.routine s receiver).perform second n) := by
  have hcall := sim.call hmachines hrefs receiver
    (fun type value htype hvalue => hshows value (.inl ⟨type, htype, hvalue⟩))
    (fun fewer body inside value hroom hstarts hvalue =>
      hshows value (.inr ⟨fewer, body, inside, hroom, hstarts, hvalue⟩))
  apply Agree.andThen hcall
  intro type type' m₁ n₁ _ htypes h₁
  exact .pure (congrArg some htypes) h₁

end ScopeMachine.Simulation
