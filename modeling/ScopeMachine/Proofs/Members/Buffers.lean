/-
# Buffers with types of their own

Conversion to a text and reading from a stream make buffers whose length is known only when
they are made. Each adds a type for its buffer, an array of just as many characters, and
answers the number of this type. Types are added in the middle of a run and never change, so
from then on the type and the buffer go together: the length that is asked for and the text
that is shown are those of the buffer.
-/

import ScopeMachine.Proofs.Errors.Runs
import ScopeMachine.Proofs.Members.Streams
import ScopeMachine.Proofs.Text.Widening
import ScopeMachine.Proofs.Types.Extensions
import ScopeMachine.Proofs.Types.Ranges

namespace ScopeMachine

open Machine

/-! ## Code that makes a buffer -/

namespace Exec

variable {α : Type}

/-- Code that leaves the stack and the types as they are where it goes through. -/
def OnlyLooks (work : Exec α) : Prop :=
  ∀ machine answer after, work machine = .ok answer after →
    after.stack = machine.stack ∧ after.types = machine.types

/-- Code that, where it goes through, pushes a buffer and answers a type that it has added
for it. -/
def Delivers (work : Exec TypeId) : Prop :=
  ∀ machine id after, work machine = .ok id after →
    ∃ bytes, after.stack = .buffer bytes :: machine.stack ∧
      machine.types.array .char bytes.length = .ok (id, after.types)

theorem Delivers.of_looking {first : Exec α} {next : α → Exec TypeId} (hfirst : OnlyLooks first)
    (hnext : ∀ answer, Delivers (next answer)) : Delivers (first >>= next) := by
  intro machine id after hdone
  obtain ⟨answer, here, hlooked, hrest⟩ := bind_eq_ok hdone
  obtain ⟨hstack, htypes⟩ := hfirst machine answer here hlooked
  rw [← hstack, ← htypes]
  exact hnext answer here id after hrest

theorem onlyLooks_askTypes (question : TypeStore → Except TypeRefusal α) :
    OnlyLooks (askTypes question) := by
  intro machine answer after hdone
  unfold askTypes at hdone
  split at hdone
  · cases hdone
    exact ⟨rfl, rfl⟩
  · cases hdone

theorem onlyLooks_onChannels (work : Channels → α × Channels) : OnlyLooks (onChannels work) := by
  rintro machine answer after ⟨⟩
  exact ⟨rfl, rfl⟩

theorem onlyLooks_shownPlace (env : Environment) : OnlyLooks (shownPlace env) := by
  rintro machine answer after ⟨⟩
  exact ⟨rfl, rfl⟩

theorem onlyLooks_streamOperand (value : Value) : OnlyLooks (streamOperand value) := by
  intro machine answer after hdone
  unfold streamOperand at hdone
  split at hdone
  · split at hdone
    · cases hdone
      exact ⟨rfl, rfl⟩
    · cases hdone
  · cases hdone

theorem onlyLooks_intOperand (value : Value) : OnlyLooks (intOperand value) := by
  intro machine answer after hdone
  unfold intOperand at hdone
  split at hdone
  · cases hdone
    exact ⟨rfl, rfl⟩
  · cases hdone

/-- The end that both members have in common. -/
theorem delivers_buffer (bytes : List UInt8) :
    Delivers (do
      let type ← charArrayType bytes.length
      push (.buffer bytes)
      return type) := by
  intro machine id after hdone
  obtain ⟨type, here, hmade, hpushed⟩ := bind_eq_ok hdone
  unfold charArrayType at hmade
  split at hmade
  · rename_i made types harray
    cases hmade
    cases hpushed
    exact ⟨bytes, rfl, harray⟩
  · cases hmade

end Exec

namespace Machine

open Exec

variable {env : Environment} {machine after : Machine} {ref : SymbolRef} {member : Member}
  {receiver declared id : TypeId}

/-- The member makes a buffer, and a type for it. -/
def MakesBuffer (member : Member) : Prop :=
  member = .toStr ∨ member = .read

/-- Where operands are popped, they are gone and the types are as they were. -/
theorem popOperands_taken {taker : String} {count : Nat} {operands : Vector Value count}
    (hdone : popOperands taker count machine = .ok operands after) :
    after.stack = machine.stack.drop count ∧ after.types = machine.types := by
  simp only [popOperands] at hdone
  split at hdone
  · cases hdone
    exact ⟨rfl, rfl⟩
  · cases hdone

/-- Code that delivers after it has taken operands leaves the buffer in their place. -/
theorem exists_buffer_of_operands {taker : String} {count : Nat}
    {next : Vector Value count → Exec TypeId} (hnext : ∀ operands, Delivers (next operands))
    (hdone : (popOperands taker count >>= next) machine = .ok id after) :
    ∃ bytes, after.stack = .buffer bytes :: machine.stack.drop count ∧
      machine.types.array .char bytes.length = .ok (id, after.types) := by
  obtain ⟨operands, here, hpopped, hrest⟩ := bind_eq_ok hdone
  obtain ⟨hstack, htypes⟩ := popOperands_taken hpopped
  rw [← hstack, ← htypes]
  exact hnext operands here id after hrest

/-- A member that makes a buffer takes its operands, pushes the buffer and adds its type. -/
theorem exists_buffer (hmakes : MakesBuffer member)
    (hdone : callMember env member receiver declared machine = .ok id after) :
    ∃ bytes, after.stack = .buffer bytes :: machine.stack.drop (member.arity + 1) ∧
      machine.types.array .char bytes.length = .ok (id, after.types) := by
  rcases hmakes with rfl | rfl
  · apply exists_buffer_of_operands _ hdone
    intro operands
    apply Delivers.of_looking (onlyLooks_askTypes _)
    intro code
    exact .of_looking (onlyLooks_shownPlace env) fun place => delivers_buffer _
  · apply exists_buffer_of_operands _ hdone
    intro operands
    apply Delivers.of_looking (onlyLooks_streamOperand _)
    intro stream
    apply Delivers.of_looking (onlyLooks_intOperand _)
    intro size
    apply Delivers.of_looking (onlyLooks_intOperand _)
    intro count
    exact .of_looking (onlyLooks_onChannels _) fun bytes => delivers_buffer bytes

/-! ## Types that fit a buffer -/

/-- The type fits the buffer: it is an array of as many characters as the buffer has bytes,
and of that size; the length of a value of the type is the number of bytes; and the buffer
shows under it up to the first NUL, if there is one, and wholly otherwise. -/
structure Fits (machine : Machine) (id : TypeId) (bytes : List UInt8) : Prop where
  shaped : machine.types.shape id = .ok (.array ⟨.char, bytes.length, bytes.length⟩)
  sized : bytes.length ≤ TypeStore.sizeLimit → machine.types.sizeOf id = .ok bytes.length
  counted : ∀ {env : Environment} {nested ref value rest}, NamesMember env ref .length →
    machine.stack = value :: rest → bytes.length ≤ greatestInt →
      ∃ declared number, callSymbol env nested ref (some id) machine =
        .ok declared { machine with stack := .int number :: rest } ∧
          number.toInt = bytes.length
  shown : ∀ scopes, ∃ text cut, bytes = text ++ cut ∧ 0 ∉ text ∧ (∀ byte ∈ cut.head?, byte = 0) ∧
    (Value.buffer bytes).render id machine.types scopes =
      .ok (some (Value.quoted (Text.ofBytes text)))

/-- Convert a value to a text. -/
theorem toStrMember_eq {value : Value} {rest : List Value} {code : TypeCode} {types : TypeStore}
    (hstack : machine.stack = value :: rest) (hcode : machine.types.code receiver = .ok code)
    (htype : machine.types.array .char
      (Text.encode (value.scalarText code (env.places ⟨machine.types.size⟩))).length =
      .ok (id, types)) :
    toStrMember env receiver machine =
      .ok id { machine with
        stack :=
          .buffer (Text.encode (value.scalarText code (env.places ⟨machine.types.size⟩))) :: rest
        types } := by
  simp [toStrMember, popOperands, hstack, askTypes, hcode, shownPlace, charArrayType, htype, push,
    bind, EStateM.bind, pure, EStateM.pure]

/-- The length of an array is the number of its elements. -/
theorem callMember_length {value : Value} {rest : List Value} {layout : ArrayLayout}
    (hstack : machine.stack = value :: rest)
    (hshape : machine.types.shape id = .ok (.array layout)) :
    callMember env .length id declared machine =
      .ok declared { machine with stack := countValue layout.count :: rest } := by
  apply ok_of_work
  simp [lengthMember, popOperands, hstack, askTypes, hshape, TypeShape.layout?, push, bind,
    EStateM.bind]

/-- A buffer shows under an array of characters as far as the array and a NUL let it. -/
theorem render_buffer {types : TypeStore} {layout : ArrayLayout} {bytes : List UInt8}
    (hid : 8 ≤ id.index) (hshape : types.shape id = .ok (.array layout))
    (hcharacters : layout.element = .char) (scopes : ScopeStore) :
    (Value.buffer bytes).render id types scopes =
      .ok (some (Value.quoted (Text.ofBytes (Text.beforeNul (bytes.take layout.count))))) := by
  rw [TypeStore.render_of_added hid hshape]
  simp only [Value.arrayText, if_pos hcharacters]

/-- A type that was made for characters stays as it was made, each of them one byte. -/
theorem find_of_charArray {types added later : TypeStore} {count : Nat}
    (hreachable : types.Reachable) (hmade : types.array .char count = .ok (id, added))
    (hextends : added.Extends later) :
    8 ≤ id.index ∧ later.find id = .ok (.characters 1 count) := by
  obtain ⟨character, hcharacter, rfl, rfl⟩ := TypeStore.array_eq_ok hmade
  have hone : character.size = 1 := by
    have hsize := hreachable.keeps.sizeOf_eq (by decide : TypeId.char.index < 8)
    rw [TypeStore.sizeOf_of_find hcharacter] at hsize
    exact Except.ok.inj hsize
  refine ⟨hreachable.size_le, ?_⟩
  rw [hextends.find_eq (by rw [TypeStore.size_allocate]; exact Nat.lt_succ_self _), hone]
  exact TypeStore.find_allocate_self _ _

/-- A type that was made for a buffer fits it in any machine that has this type. -/
theorem fits_of_array {types added : TypeStore} {bytes : List UInt8} (hreachable : types.Reachable)
    (hmade : types.array .char bytes.length = .ok (id, added))
    (hextends : added.Extends machine.types) : machine.Fits id bytes := by
  obtain ⟨hlater, hfind⟩ := find_of_charArray hreachable hmade hextends
  have hshape : machine.types.shape id = .ok (.array ⟨.char, bytes.length, bytes.length⟩) :=
    TypeStore.shape_of_find hfind
  refine ⟨hshape, fun hlimit => ?_, fun hnames hstack hlength => ?_, fun scopes => ?_⟩
  · have hsize : (TypeInfo.characters 1 bytes.length).size = bytes.length := by
      rw [TypeInfo.characters, Nat.one_mul, Nat.min_eq_left hlimit]
    rw [TypeStore.sizeOf_of_find hfind, hsize]
  · obtain ⟨declared, hcall⟩ := exists_callSymbol_eq hnames
    refine ⟨declared, Int32.ofNat bytes.length, ?_, ?_⟩
    · rw [hcall, callMember_length hstack hshape, countValue, Nat.min_eq_left hlength]
    · exact Int32.toInt_ofNat_of_lt (Nat.lt_succ_of_le hlength)
  · obtain ⟨cut, hcut, hnul, hfirst⟩ := Text.exists_beforeNul_append bytes
    refine ⟨Text.beforeNul bytes, cut, hcut, hnul, hfirst, ?_⟩
    rw [render_buffer hlater hshape rfl, List.take_length]

/-- Types are only ever added, and each that is added for a buffer fits it. Whatever a machine
is asked for, be it runs, calls or anything else, and whether it goes through or not, the
types that were there are described afterwards as before. A call that converts to a text or
reads from a stream adds one type for the buffer that it pushes and answers this type, which
fits the buffer from then on. -/
theorem types_only_grow (env : Environment) (machine : Machine) :
    (∀ requests, machine.types.Extends (serve env machine requests).types ∧
      ∀ id, id.index < machine.types.size →
        machine.types.Preserves (serve env machine requests).types id) ∧
    ∀ nested ref member receiver id after, machine.types.Reachable → MakesBuffer member →
      NamesMember env ref member →
        callSymbol env nested ref (some receiver) machine = .ok id after →
          id = ⟨machine.types.size⟩ ∧ machine.types.Extends after.types ∧
            after.types.size = machine.types.size + 1 ∧
            ∃ bytes, after.stack = .buffer bytes :: machine.stack.drop (member.arity + 1) ∧
              ∀ later : Machine, after.types.Extends later.types → later.Fits id bytes := by
  constructor
  · intro requests
    have hextends : machine.types.Extends (serve env machine requests).types :=
      types_serve env machine.types.Extends (fun hstore size count => hstore.trans (.allocate _ _))
        (.refl _) requests
    exact ⟨hextends, fun id hid => hextends.preserves hid⟩
  · intro nested ref member receiver id after hreachable hmakes hnames hdone
    obtain ⟨declared, hcall⟩ := exists_callSymbol_eq hnames
    rw [hcall] at hdone
    obtain ⟨bytes, hstack, hmade⟩ := exists_buffer hmakes hdone
    obtain ⟨character, -, hid, hadded⟩ := TypeStore.array_eq_ok hmade
    refine ⟨hid, ?_, ?_, bytes, hstack, fun later => fits_of_array hreachable hmade⟩
    · rw [hadded]
      exact .allocate _ _
    · rw [hadded, TypeStore.size_allocate]

/-- A scope with the two members that make a text and count what they made. -/
def counting : Environment :=
  let symbol (name : String) (member : Member) : Symbol :=
    { name, home := ⟨0⟩, defn := .routine .function { code := .native member } }
  { scopes := ⟨#[{ index := ⟨0⟩, symbols := #[symbol "to_str" .toStr, symbol "length" .length] }]⟩,
    settings := {} }

theorem types_only_grow_fortyTwo :
    MakesBuffer .toStr ∧ NamesMember counting ⟨⟨0⟩, ⟨0⟩⟩ .toStr ∧
      ∃ after, call counting ⟨⟨0⟩, ⟨0⟩⟩ (some .int) { stack := [.int 42, .bool true] } =
          .ok ⟨8⟩ after ∧
        after.stack = [.buffer [0x34, 0x32], .bool true] ∧
        ∀ requests, (serve counting after requests).Fits ⟨8⟩ [0x34, 0x32] := by
  have hnames : NamesMember counting ⟨⟨0⟩, ⟨0⟩⟩ .toStr := ⟨_, _, _, rfl, rfl, rfl⟩
  have hcall : call counting ⟨⟨0⟩, ⟨0⟩⟩ (some .int) { stack := [.int 42, .bool true] } =
      .ok ⟨8⟩ { stack := [.buffer [0x34, 0x32], .bool true],
                types := (TypeStore.predefined.allocate (.characters 1 2)).2 } := by
    have hcode : TypeStore.predefined.code .int = .ok .int := rfl
    have htext (place : String) :
        Text.encode ((Value.int 42).scalarText .int place) = [0x34, 0x32] := by
      show Text.encode (toString (42 : Int)) = [0x34, 0x32]
      decide +kernel
    have harray : TypeStore.predefined.array .char 2 =
        .ok (⟨8⟩, (TypeStore.predefined.allocate (.characters 1 2)).2) := rfl
    obtain ⟨declared, hcalled⟩ := exists_call_eq hnames
    rw [hcalled, callMember, toStrMember_eq rfl hcode (by rw [htext]; exact harray), htext]
  obtain ⟨-, -, -, bytes, hstack, hfits⟩ := (types_only_grow counting _).2 _ _ _ _ _ _ .predefined
    (.inl rfl) hnames hcall
  cases hstack
  refine ⟨.inl rfl, hnames, _, hcall, rfl, fun requests => hfits _ ?_⟩
  exact ((types_only_grow counting _).1 requests).1

end Machine

end ScopeMachine
