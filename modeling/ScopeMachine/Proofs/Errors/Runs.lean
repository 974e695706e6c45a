/-
# Errors that runs meet

An allowance covers every operation of a machine, so it covers calls, instructions and
bodies too, however deeply the calls in them nest. The induction is on how many frames
may still be added, and within that on the body. What a machine is asked for is then
covered as well.
-/

import ScopeMachine.Proofs.Errors.Allowance
import ScopeMachine.Proofs.Serving

namespace ScopeMachine

open Machine

/-- Every member that a request calls is called on an expected type, but for those that
compiled routines call. -/
def Machine.Request.CallsOn (receivers : TypeId → Prop) : Request → Prop
  | .task (.body body) => Body.CallsOn receivers body
  | .task (.routine _ receiver) => ∀ id, receiver = some id → receivers id
  | _ => True

/-- Where every type is expected, so is each that a request names. -/
theorem Machine.Request.callsOn_of_forall {receivers : TypeId → Prop}
    (hreceivers : ∀ id, receivers id) (request : Request) : request.CallsOn receivers := by
  cases request with
  | task work =>
      cases work with
      | body body => exact fun _ _ id _ => hreceivers id
      | routine ref receiver => exact fun id _ => hreceivers id
  | _ => trivial

namespace Allowance

variable {env : Environment} {allowance : Allowance env}

theorem covers_withFrame {α : Type} {frame : Frame} {work : Exec α}
    (hwork : allowance.Covers work) : allowance.Covers (withFrame frame work) := by
  intro machine htypes
  have hcovered := hwork (machine.entering frame) htypes
  rw [withFrame_eq]
  cases hdone : work (machine.entering frame) with
  | ok answer here =>
      rw [hdone] at hcovered
      exact hcovered
  | error error here =>
      rw [hdone] at hcovered
      exact hcovered

section Nested

variable {nested : Nested} (hnested : ∀ run, nested = some run → ∀ body,
  Body.CallsOn allowance.receivers body → allowance.Covers (run body))

include hnested

theorem covers_callBody (name : String) (kind : RoutineKind) (routine : Routine) {body : Body}
    (hbody : Body.CallsOn allowance.receivers body) :
    allowance.Covers (callBody env nested name kind routine body) := by
  cases hrun : nested with
  | none => exact .throw (allowance.own _ id)
  | some run =>
      apply (covers_popOperands _ _).bind
      intro arguments
      apply (covers_announce_ok _ _).bind
      intro _
      apply (covers_withFrame (hnested run hrun body hbody)).bind
      intro _
      exact covers_announce_ok _ _

/-- A call is covered if the symbol is there, and is called on an expected type if it is
a member. -/
theorem covers_callSymbol {ref : SymbolRef} (hleads : env.Leads allowance.allows ref)
    {receiver : Option TypeId} (hreceiver : ∀ id, receiver = some id → allowance.receivers id) :
    allowance.Covers (callSymbol env nested ref receiver) := by
  apply covers_ofScopes hleads
  intro symbol hsymbol
  dsimp only
  have hnoRoutine : allowance.Covers (throw (.notARoutine symbol.name) : Exec TypeId) :=
    .throw (allowance.own _ id)
  split
  · rename_i kind routine hdefn
    split
    · split
      · exact covers_callMember _ (hreceiver _ rfl) _
      · exact .throw (allowance.own _ id)
    · rename_i body hcode
      have hcompiled : compiled? env ref = some ⟨symbol, kind, routine, body⟩ := by
        simp only [compiled?, hsymbol, hdefn, hcode]
      exact (covers_callBody hnested _ _ _ (allowance.bodies hcompiled)).bind fun _ => .pure _
    · exact hnoRoutine
    · exact hnoRoutine
  · exact hnoRoutine

/-- An instruction is covered if it calls a member on an expected type only. -/
theorem covers_perform {op : Op} (hop : ∀ id, receiver? op = some id → allowance.receivers id) :
    allowance.Covers (perform env nested op) := by
  have hresolve {α : Type} {addr : SymbolAddr} {next : SymbolRef → Exec α}
      (hnext : ∀ ref, env.Leads allowance.allows ref → allowance.Covers (next ref)) :
      allowance.Covers (resolve env addr >>= next) :=
    covers_ofScopes (allowance.unresolved addr) fun ref href =>
      hnext ref (allowance.leads addr ref href)
  cases op with
  | push literal => exact covers_push _
  | fetch addr =>
      apply hresolve
      intro ref hleads
      exact (covers_fetch hleads).bind covers_push
  | fetchAddress addr =>
      apply hresolve
      intro ref hleads
      exact (covers_fetchAddress hleads).bind covers_push
  | store addr =>
      apply hresolve
      intro ref hleads
      exact covers_pop.bind (covers_store hleads)
  | call addr =>
      apply hresolve
      intro ref hleads
      exact (covers_callSymbol hnested hleads hop).bind fun _ => .pure ()
  | callMember addr receiver =>
      apply hresolve
      intro ref hleads
      exact (covers_callSymbol hnested hleads hop).bind fun _ => .pure ()
  | statement line =>
      have hline : allowance.Covers (modify fun machine => { machine with line } : Exec Unit) :=
        covers_modify fun _ => rfl
      exact hline.bind fun _ => covers_announce_ok _ _
  | arithmetic operation => exact covers_arithmetic operation
  | pop => exact covers_pop.bind fun _ => .pure ()
  | leave => exact .pure ()

theorem covers_runOps {body : Body} (hbody : Body.CallsOn allowance.receivers body) :
    allowance.Covers (runOps env nested body) := by
  induction body with
  | nil => exact .pure ()
  | cons op rest ih =>
      by_cases hop : op = .leave
      · subst hop
        exact .pure ()
      · rw [runOps_cons env nested rest hop]
        apply (covers_perform hnested (hbody op List.mem_cons_self)).bind
        intro _
        exact ih fun op hop => hbody op (List.mem_cons_of_mem _ hop)

end Nested

/-- However many frames may be added, bodies are covered. -/
theorem covers_nestedIn (room : Nat) : ∀ run, nestedIn env room = some run → ∀ body,
    Body.CallsOn allowance.receivers body → allowance.Covers (run body) := by
  induction room with
  | zero =>
      intro run hrun
      cases hrun
  | succ room ih =>
      rintro run ⟨⟩ body hbody
      rw [runWithin_eq]
      exact covers_runOps ih hbody

theorem covers_run {body : Body} (hbody : Body.CallsOn allowance.receivers body) :
    allowance.Covers (run env body) := by
  intro machine htypes
  unfold run
  rw [runWithin_eq]
  exact covers_runOps (covers_nestedIn _) hbody machine htypes

theorem covers_call {ref : SymbolRef} (hleads : env.Leads allowance.allows ref)
    {receiver : Option TypeId} (hreceiver : ∀ id, receiver = some id → allowance.receivers id) :
    allowance.Covers (call env ref receiver) :=
  fun machine htypes => covers_callSymbol (covers_nestedIn _) hleads hreceiver machine htypes

/-! ## Requests -/

section Requests

variable (hleads : ∀ ref, env.Leads allowance.allows ref)

include hleads

theorem covers_task {task : Task} (htask : (Request.task task).CallsOn allowance.receivers) :
    allowance.Covers (task.perform env) := by
  cases task with
  | body body => exact (covers_run htask).bind fun _ => .pure none
  | routine ref receiver => exact (covers_call (hleads ref) htask).bind fun _ => .pure _

/-- A request is covered if the members that it calls are called on expected types. -/
theorem covers_request {request : Request} (hrequest : request.CallsOn allowance.receivers) :
    allowance.Covers (request.perform env) := by
  cases request with
  | push value => exact covers_push value
  | pop => exact covers_pop.bind fun _ => .pure ()
  | top => exact covers_top.bind fun _ => .pure ()
  | define ref value => exact fun _ htypes => htypes
  | fetch ref => exact (covers_fetch (hleads ref)).bind fun _ => .pure ()
  | store ref value => exact covers_store (hleads ref) value
  | task work => exact (covers_task hleads hrequest).bind fun _ => .pure ()
  | execute program =>
      have hnone : ∀ id, (none : Option TypeId) = some id → allowance.receivers id := by simp
      exact (covers_call (hleads program) hnone).bind fun _ => .pure ()
  | newStream =>
      have hallocate : allowance.Covers newStream := (covers_onChannels _).bind fun _ => .pure _
      exact hallocate.bind fun _ => .pure ()

theorem types_after {request : Request} (hrequest : request.CallsOn allowance.receivers)
    {machine : Machine} (htypes : allowance.types machine.types) :
    allowance.types (request.after env machine).types := by
  have hcovered := covers_request hleads hrequest machine htypes
  rw [Request.after]
  cases hdone : request.perform env machine with
  | ok answer here =>
      rw [hdone] at hcovered
      exact hcovered
  | error error here =>
      rw [hdone] at hcovered
      exact hcovered.2

end Requests

/-! ## Types that grow -/

/-- Any code whatsoever keeps of the types what is kept as arrays of characters are added. -/
def ofTypes (env : Environment) (holds : TypeStore → Prop)
    (hgrows : ∀ {store}, holds store → ∀ size count,
      holds (store.allocate (.characters size count)).2) : Allowance env where
  types := holds
  allows _ := True
  receivers _ := True
  own _ _ := trivial
  unresolved _ _ _ := trivial
  leads _ _ _ _ _ := trivial
  grows := hgrows
  character _ _ _ := trivial
  receiver _ _ := ⟨fun _ _ => trivial, fun _ _ => trivial⟩
  constant _ _ _ _ := trivial
  announced _ _ _ _ _ _ := trivial
  bodies _ _ _ _ _ := trivial

end Allowance

/-- Whatever a machine is asked for adds arrays of characters to the types and does nothing
else to them. -/
theorem Machine.types_serve (env : Environment) (holds : TypeStore → Prop)
    (hgrows : ∀ {store}, holds store → ∀ size count,
      holds (store.allocate (.characters size count)).2)
    {machine : Machine} (hholds : holds machine.types) (requests : List Request) :
    holds (serve env machine requests).types := by
  have hafter (here : Machine) (request : Request) (hhere : holds here.types) :
      holds (request.after env here).types := by
    have hcalls : request.CallsOn fun _ => True := request.callsOn_of_forall fun _ => trivial
    exact (Allowance.ofTypes env holds hgrows).types_after (fun _ _ _ => trivial) hcalls hhere
  exact serve_of_after hafter hholds requests

end ScopeMachine
