/-
# Members under a simulation

What a member does follows from its operands, from types that are the same but
for the constants of enumerations, and from streams and files that are the same.
A simulation knows all of these, so members agree in machines that correspond.
Only the conversion to a text looks at an address, or at the place of an array,
and there the simulation has to allow the value.
-/

import ScopeMachine.Proofs.Simulation.Basic

namespace ScopeMachine

open Machine Outcome

namespace Value.Corresponds

variable {addresses : VariableAddress → VariableAddress → Prop} {v w : Value}

theorem kind_eq (hvalues : Value.Corresponds addresses v w) : v.kind = w.kind := by
  cases hvalues <;> rfl

theorem ordinal?_eq (hvalues : Value.Corresponds addresses v w) : v.ordinal? = w.ordinal? := by
  cases hvalues <;> rfl

/-- Whether a value counts as true is told alike, whatever else is told of it. -/
theorem scalarText_bool_eq (hvalues : Value.Corresponds addresses v w) (place place' : String) :
    v.scalarText .bool place = w.scalarText .bool place' := by
  have htruth (value : Value) (place : String) :
      value.scalarText .bool place = value.truthText := by
    cases value <;> rfl
  rw [htruth, htruth, truthText, truthText, isTrue, isTrue, hvalues.ordinal?_eq]

end Value.Corresponds

/-- Only of an array the text says where it stands. -/
theorem Value.scalarText_eq_of_ne_buffer {value : Value} (hother : ∀ bytes, value ≠ .buffer bytes)
    (code : TypeCode) (place place' : String) :
    value.scalarText code place = value.scalarText code place' := by
  cases value with
  | buffer bytes => exact absurd rfl (hother bytes)
  | _ => cases code <;> rfl

namespace Simulation

variable {View : Type} {first second : Environment} (sim : Simulation View first second)
variable {view : View} {m n : Machine}

/-! ## Operands and results -/

/-- The operands that two machines take correspond one by one. -/
abbrev Operands {count : Nat} (vs ws : Vector Value count) : Prop :=
  List.Forall₂ (Value.Corresponds sim.addresses) vs.toList ws.toList

variable {sim} in
theorem Operands.get {count : Nat} {vs ws : Vector Value count} (hoperands : sim.Operands vs ws)
    (i : Nat) (hi : i < count) : Value.Corresponds sim.addresses vs[i] ws[i] := by
  have hget := List.Forall₂.get hoperands (i := i) (by simpa using hi) (by simpa using hi)
  simpa using hget

theorem push (hmachines : sim.machines view m n) {v w : Value}
    (hvalues : Value.Corresponds sim.addresses v w) :
    Agree (sim.machines view) Eq (Machine.push v m) (Machine.push w n) :=
  ⟨rfl, sim.withStack hmachines (.cons hvalues (sim.stack hmachines))⟩

theorem pop (hmachines : sim.machines view m n) :
    Agree (sim.machines view) (Value.Corresponds sim.addresses) (Machine.pop m)
      (Machine.pop n) := by
  have hstack := sim.stack hmachines
  unfold Machine.pop
  cases hm : m.stack <;> cases hn : n.stack <;> rw [hm, hn] at hstack
  · exact ⟨rfl, hmachines⟩
  · cases hstack
  · cases hstack
  · cases hstack with
    | cons hvalues hrest => exact ⟨hvalues, sim.withStack hmachines hrest⟩

theorem popOperands (hmachines : sim.machines view m n) (taker : String) (count : Nat) :
    Agree (sim.machines view) sim.Operands (Machine.popOperands taker count m)
      (Machine.popOperands taker count n) := by
  have hstack := sim.stack hmachines
  have htaken := List.forall₂_take count hstack
  have hlength := htaken.length_eq
  unfold Machine.popOperands
  by_cases hm : (m.stack.take count).length = count
  · have hn : (n.stack.take count).length = count := hlength ▸ hm
    simp only [dif_pos hm, dif_pos hn]
    refine ⟨?_, sim.withStack hmachines (List.forall₂_drop count hstack)⟩
    simpa [Operands, Vector.toList] using List.rel_reverse htaken
  · have hn : (n.stack.take count).length ≠ count := hlength ▸ hm
    simp only [dif_neg hn, hlength]
    exact ⟨rfl, sim.withStack hmachines .nil⟩

theorem streamOperand (hmachines : sim.machines view m n) {v w : Value}
    (hvalues : Value.Corresponds sim.addresses v w) :
    Agree (sim.machines view) Eq (Machine.streamOperand v m) (Machine.streamOperand w n) := by
  have hcontains (id : StreamId) : n.channels.contains id = m.channels.contains id := by
    rw [sim.channels hmachines]
    rfl
  cases hvalues with
  | address htargets => exact ⟨rfl, hmachines⟩
  | plain hplain =>
      cases v with
      | stream id =>
          simp only [Machine.streamOperand, hcontains]
          by_cases hid : m.channels.contains id
          · simpa [hid, Agree] using hmachines
          · simpa [hid, Agree] using hmachines
      | _ => exact ⟨rfl, hmachines⟩

theorem bufferOperand (hmachines : sim.machines view m n) {v w : Value}
    (hvalues : Value.Corresponds sim.addresses v w) :
    Agree (sim.machines view) Eq (Machine.bufferOperand v m) (Machine.bufferOperand w n) := by
  cases hvalues with
  | address htargets => exact ⟨rfl, hmachines⟩
  | plain hplain => cases v <;> exact ⟨rfl, hmachines⟩

theorem intOperand (hmachines : sim.machines view m n) {v w : Value}
    (hvalues : Value.Corresponds sim.addresses v w) :
    Agree (sim.machines view) Eq (Machine.intOperand v m) (Machine.intOperand w n) := by
  simp only [Machine.intOperand, hvalues.ordinal?_eq, hvalues.kind_eq]
  cases w.ordinal? <;> exact ⟨rfl, hmachines⟩

theorem textOperand (hmachines : sim.machines view m n) {v w : Value}
    (hvalues : Value.Corresponds sim.addresses v w) :
    Agree (sim.machines view) Eq (Machine.textOperand v m) (Machine.textOperand w n) := by
  rw [textOperand_eq, textOperand_eq]
  apply Agree.andThen (sim.bufferOperand hmachines hvalues)
  intro bytes _ m' n' _ hbytes hafter
  subst hbytes
  exact .pure rfl hafter

/-! ## Types and channels -/

theorem charArrayType (hmachines : sim.machines view m n) (count : Nat) :
    Agree (sim.machines view) Eq (Machine.charArrayType count m)
      (Machine.charArrayType count n) := by
  have htypes := sim.types hmachines
  have hfind := TypeStore.find_rename sim.constants m.types .char
  rw [← htypes] at hfind
  unfold Machine.charArrayType TypeStore.array
  cases hm : m.types.find .char with
  | error e =>
      rw [hm] at hfind
      rw [hfind]
      exact ⟨rfl, hmachines⟩
  | ok info =>
      rw [hm] at hfind
      rw [hfind]
      refine ⟨?_, sim.withType info.size count hmachines⟩
      show (⟨m.types.infos.size⟩ : TypeId) = ⟨n.types.infos.size⟩
      rw [htypes]
      simp [TypeStore.rename]

/-- Work on the channels that has nothing to do with the sink. -/
theorem onChannels (hmachines : sim.machines view m n) {α : Type} (work : Channels → α × Channels)
    (hwork : ∀ channels sink, work (channels.withSink sink) =
      ((work channels).1, (work channels).2.withSink sink)) :
    Agree (sim.machines view) Eq (Machine.onChannels work m) (Machine.onChannels work n) := by
  have hfirst := hwork m.channels m.channels.sink
  have hsecond := hwork m.channels n.channels.sink
  rw [← sim.channels hmachines] at hsecond
  unfold Machine.onChannels
  rw [hsecond, show work m.channels = _ from hfirst]
  exact ⟨rfl, sim.withChannels _ hmachines⟩

/-- Writing agrees, since both machines send the same text or none. -/
theorem write (hmachines : sim.machines view m n) (id : StreamId) (bytes : List UInt8) :
    Agree (sim.machines view) Eq (Machine.onChannels (·.write id bytes) m)
      (Machine.onChannels (·.write id bytes) n) := by
  have hfirst := Channels.write_withSink m.channels m.channels.sink id bytes
  have hsecond := Channels.write_withSink m.channels n.channels.sink id bytes
  rw [← sim.channels hmachines] at hsecond
  have hafter := sim.withChannels (m.channels.write id bytes).2 hmachines
  unfold Machine.onChannels
  dsimp only
  rw [hsecond, show m.channels.write id bytes = _ from hfirst]
  cases m.channels.sent? id bytes with
  | none => exact ⟨rfl, hafter⟩
  | some text => exact ⟨rfl, sim.written text hafter⟩

/-! ## The members -/

theorem sizeMember (hmachines : sim.machines view m n) (receiver : TypeId) :
    Agree (sim.machines view) Eq (Machine.sizeMember receiver m)
      (Machine.sizeMember receiver n) := by
  apply Agree.andThen (sim.popOperands hmachines _ _)
  intro _ _ m₁ n₁ _ _ h₁
  have hsize : Alike Eq (m₁.types.sizeOf receiver) (n₁.types.sizeOf receiver) := by
    rw [sim.types h₁, TypeStore.sizeOf_rename]
    exact .refl (fun _ => rfl) _
  apply Agree.andThen (Agree.askTypes hsize h₁)
  intro size _ m₂ n₂ _ hsize h₂
  subst hsize
  exact sim.push h₂ (.plain (by simp [countValue]))

theorem lengthMember (hmachines : sim.machines view m n) (receiver : TypeId) :
    Agree (sim.machines view) Eq (Machine.lengthMember receiver m)
      (Machine.lengthMember receiver n) := by
  apply Agree.andThen (sim.popOperands hmachines _ _)
  intro _ _ m₁ n₁ _ _ h₁
  have hshape : Alike (fun shape shape' => shape.layout? = shape'.layout?)
      (m₁.types.shape receiver) (n₁.types.shape receiver) := by
    rw [sim.types h₁, TypeStore.shape_rename]
    cases m₁.types.shape receiver with
    | error e => exact rfl
    | ok shape => exact (TypeShape.layout?_rename _ shape).symm
  apply Agree.andThen (Agree.askTypes hshape h₁)
  intro shape shape' m₂ n₂ _ hlayout h₂
  rw [hlayout]
  exact sim.push h₂ (.plain (by simp [countValue]))

/-- The conversion to a text agrees on values that the simulation allows. -/
theorem toStrMember (hmachines : sim.machines view m n) (receiver : TypeId)
    (hshows : ∀ value code, m.stack.head? = some value → m.types.code receiver = .ok code →
      code ≠ .bool → sim.shows value) :
    Agree (sim.machines view) Eq (Machine.toStrMember first receiver m)
      (Machine.toStrMember second receiver n) := by
  apply Agree.andThen (sim.popOperands hmachines _ _)
  intro vs ws m₁ n₁ htaken hoperands h₁
  have hcode : Alike Eq (m₁.types.code receiver) (n₁.types.code receiver) := by
    rw [sim.types h₁, TypeStore.code_rename]
    exact .refl (fun _ => rfl) _
  apply Agree.andThen (Agree.askTypes hcode h₁)
  intro code _ m₂ n₂ hasked hcode h₂
  subst hcode
  obtain ⟨hhead, htypes⟩ : m.stack.head? = some vs[0] ∧ m₁.types = m.types := by
    unfold Machine.popOperands at htaken
    cases hstack : m.stack with
    | nil => simp [hstack] at htaken
    | cons value rest =>
        simp only [hstack] at htaken
        obtain ⟨rfl, rfl⟩ := htaken
        exact ⟨rfl, rfl⟩
  have hvalues := hoperands.get 0 Nat.one_pos
  have htext (id : TypeId) :
      vs[0].scalarText code (first.places id) = ws[0].scalarText code (second.places id) := by
    by_cases hbool : code = .bool
    · rw [hbool]
      exact hvalues.scalarText_bool_eq _ _
    · exact sim.text hvalues
        (hshows _ code hhead (htypes ▸ (askTypes_eq_ok hasked).1) hbool) code id
  have hplace : n₂.types.size = m₂.types.size := by
    rw [sim.types h₂, TypeStore.size_rename]
  simp only [shownPlace_bind, hplace, htext]
  apply Agree.andThen (sim.charArrayType h₂ _)
  intro type _ m₃ n₃ _ htype h₃
  subst htype
  exact (sim.push h₃ (.plain (by simp))).andThen fun _ _ _ _ _ _ h => .pure rfl h

theorem putsMember (hmachines : sim.machines view m n) :
    Agree (sim.machines view) Eq (Machine.putsMember m) (Machine.putsMember n) := by
  apply Agree.andThen (sim.popOperands hmachines _ _)
  intro vs ws m₁ n₁ _ hoperands h₁
  apply Agree.andThen (sim.streamOperand h₁ (hoperands.get 0 _))
  intro stream _ m₂ n₂ _ hstream h₂
  apply Agree.andThen (sim.textOperand h₂ (hoperands.get 1 _))
  intro text _ m₃ n₃ _ htext h₃
  subst hstream htext
  apply Agree.andThen (sim.write h₃ stream _)
  intro written _ m₄ n₄ _ hwritten h₄
  subst hwritten
  exact sim.push h₄ (.plain (by simp))

theorem openMember (hmachines : sim.machines view m n) (member : Member)
    (work : Channels → StreamId → String → String → Bool × Channels)
    (hwork : ∀ channels sink id path mode, work (channels.withSink sink) id path mode =
      ((work channels id path mode).1, (work channels id path mode).2.withSink sink)) :
    Agree (sim.machines view) Eq (Machine.openMember member work m)
      (Machine.openMember member work n) := by
  apply Agree.andThen (sim.popOperands hmachines _ _)
  intro vs ws m₁ n₁ _ hoperands h₁
  apply Agree.andThen (sim.streamOperand h₁ (hoperands.get 0 _))
  intro stream _ m₂ n₂ _ hstream h₂
  apply Agree.andThen (sim.textOperand h₂ (hoperands.get 1 _))
  intro path _ m₃ n₃ _ hpath h₃
  apply Agree.andThen (sim.textOperand h₃ (hoperands.get 2 _))
  intro mode _ m₄ n₄ _ hmode h₄
  subst hstream hpath hmode
  apply Agree.andThen (sim.onChannels h₄ (work · stream path mode)
    fun channels sink => hwork channels sink stream path mode)
  intro opened _ m₅ n₅ _ hopened h₅
  subst hopened
  exact sim.push h₅ (.plain (by simp))

theorem closeMember (hmachines : sim.machines view m n) :
    Agree (sim.machines view) Eq (Machine.closeMember m) (Machine.closeMember n) := by
  apply Agree.andThen (sim.popOperands hmachines _ _)
  intro vs ws m₁ n₁ _ hoperands h₁
  apply Agree.andThen (sim.streamOperand h₁ (hoperands.get 0 _))
  intro stream _ m₂ n₂ _ hstream h₂
  subst hstream
  apply Agree.andThen (sim.onChannels h₂ (·.close stream) fun channels sink =>
    channels.close_withSink sink stream)
  intro closed _ m₃ n₃ _ hclosed h₃
  subst hclosed
  exact sim.push h₃ (.plain (by simp))

theorem flushMember (hmachines : sim.machines view m n) :
    Agree (sim.machines view) Eq (Machine.flushMember m) (Machine.flushMember n) := by
  apply Agree.andThen (sim.popOperands hmachines _ _)
  intro vs ws m₁ n₁ _ hoperands h₁
  apply Agree.andThen (sim.streamOperand h₁ (hoperands.get 0 _))
  intro stream _ m₂ n₂ _ hstream h₂
  subst hstream
  apply Agree.andThen (sim.onChannels h₂ (fun channels => (channels.flush stream, channels))
    fun channels sink => rfl)
  intro flushed _ m₃ n₃ _ hflushed h₃
  subst hflushed
  exact sim.push h₃ (.plain (by simp))

theorem wideMember (hmachines : sim.machines view m n) :
    Agree (sim.machines view) Eq (Machine.wideMember m) (Machine.wideMember n) := by
  apply Agree.andThen (sim.popOperands hmachines _ _)
  intro vs ws m₁ n₁ _ hoperands h₁
  apply Agree.andThen (sim.streamOperand h₁ (hoperands.get 0 _))
  intro stream _ m₂ n₂ _ hstream h₂
  apply Agree.andThen (sim.intOperand h₂ (hoperands.get 1 _))
  intro mode _ m₃ n₃ _ hmode h₃
  subst hstream hmode
  apply Agree.andThen (sim.onChannels h₃ (·.orient stream mode.toInt) fun channels sink =>
    channels.orient_withSink sink stream mode.toInt)
  intro orientation _ m₄ n₄ _ horientation h₄
  subst horientation
  exact sim.push h₄ (.plain (by simp))

theorem readMember (hmachines : sim.machines view m n) :
    Agree (sim.machines view) Eq (Machine.readMember m) (Machine.readMember n) := by
  apply Agree.andThen (sim.popOperands hmachines _ _)
  intro vs ws m₁ n₁ _ hoperands h₁
  apply Agree.andThen (sim.streamOperand h₁ (hoperands.get 0 _))
  intro stream _ m₂ n₂ _ hstream h₂
  apply Agree.andThen (sim.intOperand h₂ (hoperands.get 1 _))
  intro size _ m₃ n₃ _ hsize h₃
  apply Agree.andThen (sim.intOperand h₃ (hoperands.get 2 _))
  intro count _ m₄ n₄ _ hcount h₄
  subst hstream hsize hcount
  apply Agree.andThen (sim.onChannels h₄ (·.read stream (byteCount size count)) fun channels sink =>
    channels.read_withSink sink stream _)
  intro bytes _ m₅ n₅ _ hbytes h₅
  subst hbytes
  apply Agree.andThen (sim.charArrayType h₅ _)
  intro type _ m₆ n₆ _ htype h₆
  subst htype
  exact (sim.push h₆ (.plain (by simp))).andThen fun _ _ _ _ _ _ h => .pure rfl h

theorem writeMember (hmachines : sim.machines view m n) :
    Agree (sim.machines view) Eq (Machine.writeMember m) (Machine.writeMember n) := by
  apply Agree.andThen (sim.popOperands hmachines _ _)
  intro vs ws m₁ n₁ _ hoperands h₁
  apply Agree.andThen (sim.streamOperand h₁ (hoperands.get 0 _))
  intro stream _ m₂ n₂ _ hstream h₂
  apply Agree.andThen (sim.bufferOperand h₂ (hoperands.get 1 _))
  intro bytes _ m₃ n₃ _ hbytes h₃
  apply Agree.andThen (sim.intOperand h₃ (hoperands.get 2 _))
  intro size _ m₄ n₄ _ hsize h₄
  apply Agree.andThen (sim.intOperand h₄ (hoperands.get 3 _))
  intro count _ m₅ n₅ _ hcount h₅
  subst hstream hbytes hsize hcount
  rw [leading_min, pure_bind]
  apply Agree.andThen (sim.write h₅ stream _)
  intro written _ m₆ n₆ _ hwritten h₆
  subst hwritten
  exact sim.push h₆ (.plain (by simp [countValue]))

/-- Code that is followed by a type that is known already. -/
theorem declaredAfter {work : Exec Unit} (hwork : Agree (sim.machines view) Eq (work m) (work n))
    (declared : TypeId) :
    Agree (sim.machines view) Eq ((do work; return declared : Exec TypeId) m)
      ((do work; return declared : Exec TypeId) n) :=
  hwork.andThen fun _ _ _ _ _ _ hafter => .pure rfl hafter

/-- Members agree in machines that correspond. -/
theorem callMember (hmachines : sim.machines view m n) (member : Member)
    (receiver declared : TypeId)
    (hshows : member = .toStr → ∀ value code, m.stack.head? = some value →
      m.types.code receiver = .ok code → code ≠ .bool → sim.shows value) :
    Agree (sim.machines view) Eq (Machine.callMember first member receiver declared m)
      (Machine.callMember second member receiver declared n) := by
  cases member with
  | size => exact sim.declaredAfter (sim.sizeMember hmachines receiver) declared
  | length => exact sim.declaredAfter (sim.lengthMember hmachines receiver) declared
  | toStr => exact sim.toStrMember hmachines receiver (hshows rfl)
  | puts => exact sim.declaredAfter (sim.putsMember hmachines) declared
  | «open» =>
      exact sim.declaredAfter (sim.openMember hmachines .open Channels.openFile
        fun channels sink => channels.openFile_withSink sink) declared
  | reopen =>
      exact sim.declaredAfter (sim.openMember hmachines .reopen Channels.reopenFile
        fun channels sink => channels.reopenFile_withSink sink) declared
  | close => exact sim.declaredAfter (sim.closeMember hmachines) declared
  | flush => exact sim.declaredAfter (sim.flushMember hmachines) declared
  | wide => exact sim.declaredAfter (sim.wideMember hmachines) declared
  | read => exact sim.readMember hmachines
  | write => exact sim.declaredAfter (sim.writeMember hmachines) declared
  | toWstr | toInt | toChr | toFlt | toBool | toWchr | toByte => exact .pure rfl hmachines

end Simulation

end ScopeMachine
