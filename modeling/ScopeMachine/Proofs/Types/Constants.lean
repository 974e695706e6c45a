/-
# Constants of an enumeration

A constant keeps its place in the enumeration as a floating-point number, in the slot that
it shares with all other constants, and its type may be a subrange of the enumeration. Three
ways lead from here to there and back: the slot is read as an integer because the type behind
the subranges is an enumeration, the integer is shown by asking that type for its constants,
and the constant that is asked for is the one that stands at that integer. They agree, so
that a constant is shown by its name.
-/

import ScopeMachine.Machine.Variables
import ScopeMachine.Proofs.Decimal.General
import ScopeMachine.Proofs.Types.Ranges

namespace ScopeMachine

/-! ## Integers among the fractions -/

namespace Decimal.Fraction

/-- An integer is cut off to itself. -/
theorem truncate_of_int {value : Fraction} {n : ℤ} (hvalue : value.toRat = n) :
    value.truncate = n := by
  have hfloor (m : ℤ) (hm : (value.numerator : ℚ) / value.denominator = m) :
      ((value.numerator / value.denominator : ℕ) : ℤ) = m := by
    rw [Int.natCast_div, ← Rat.floor_intCast_div_natCast, Int.cast_natCast, hm, Int.floor_intCast]
  rw [toRat_eq] at hvalue
  unfold truncate
  cases hsign : value.negative with
  | false => simpa [hsign] using hfloor n (by simpa [hsign] using hvalue)
  | true =>
      have hopposite : (value.numerator : ℚ) / value.denominator = (-n : ℤ) := by
        rw [hsign, if_pos rfl, neg_one_mul, neg_eq_iff_eq_neg] at hvalue
        rw [hvalue, Int.cast_neg]
      simp [hfloor (-n) hopposite]

end Decimal.Fraction

/-! ## Types that range over an enumeration -/

/-- The form is one of those whose values are integers with a range of their own. -/
def TypeShape.IsRanged : TypeShape → Prop
  | .enumeration _ => True
  | .subrange _ _ _ => True
  | _ => False

namespace TypeStore

variable {types : TypeStore} {root id : TypeId} {constants : List SymbolRef}

/-- No predefined type is an enumeration or a subrange. -/
theorem Reachable.eight_le (hreachable : types.Reachable) {shape : TypeShape}
    (hshape : types.shape id = .ok shape) (hranged : shape.IsRanged) : 8 ≤ id.index := by
  by_contra hless
  rw [hreachable.shape_eq (Nat.lt_of_not_le hless)] at hshape
  obtain ⟨index⟩ := id
  simp only [Nat.not_le] at hless
  interval_cases index <;> cases hshape <;> exact hranged

/-- The enumeration is what is behind any number of subranges of it. -/
theorem RangesOver.base_enumeration (hranges : types.RangesOver root id)
    (hroot : types.shape root = .ok (.enumeration constants)) : types.base id = .ok root :=
  hranges.base_eq (base_eq_self hroot nofun)

/-- A type that ranges over an enumeration is held as integers. -/
theorem RangesOver.code_eq (hranges : types.RangesOver root id)
    (hroot : types.shape root = .ok (.enumeration constants)) : types.code id = .ok .int := by
  simp only [code, hranges.base_enumeration hroot, hroot, bind, Except.bind]
  rfl

/-- A type that ranges over an enumeration is one or is a subrange. -/
theorem RangesOver.exists_shape (hranges : types.RangesOver root id)
    (hroot : types.shape root = .ok (.enumeration constants)) :
    ∃ shape, types.shape id = .ok shape ∧ shape.IsRanged := by
  cases hranges with
  | refl => exact ⟨_, hroot, trivial⟩
  | subrange hshape hinner => exact ⟨_, hshape, trivial⟩

/-- Under a type that ranges over an enumeration a value is shown by the constant that it
stands for, and as an integer if there is none. -/
theorem RangesOver.render_eq (hranges : types.RangesOver root id) (hreachable : types.Reachable)
    (hroot : types.shape root = .ok (.enumeration constants)) (value : Value)
    (scopes : ScopeStore) :
    value.render id types scopes =
      .ok (some ((value.constantName? constants scopes).getD value.integerText)) := by
  obtain ⟨shape, hshape, hranged⟩ := hranges.exists_shape hroot
  have hindex := hreachable.eight_le hshape hranged
  have htext : value.ordinalText id types scopes =
      .ok ((value.constantName? constants scopes).getD value.integerText) := by
    simp only [Value.ordinalText, hranges.base_enumeration hroot, hroot, bind,
      Except.bind]
    rfl
  rw [render_of_added hindex hshape, htext]
  cases shape with
  | enumeration _ | subrange _ _ _ => rfl
  | _ => exact hranged.elim

end TypeStore

/-! ## Constants stand where they are listed -/

/-- The symbol is the constant that stands for `ordinal`: its slot holds this number, and its
type is the enumeration or a subrange of it. -/
structure Symbol.StandsFor (symbol : Symbol) (types : TypeStore) (root : TypeId)
    (ordinal : ℕ) : Prop where
  defn : symbol.defn = .constant
  value : ∃ number, symbol.value.reading = .finite number ∧ number.toRat = ordinal
  type : ∃ id, symbol.type = some id ∧ types.RangesOver root id

/-- The type is an enumeration of `constants`, no more than there are numbers for, and each
of them stands for its place. So they are all different. -/
structure TypeStore.Enumerates (types : TypeStore) (scopes : ScopeStore) (root : TypeId)
    (constants : List SymbolRef) : Prop where
  reachable : types.Reachable
  shape : types.shape root = .ok (.enumeration constants)
  length_le : constants.length ≤ 2147483648
  declared : ∀ ordinal ref, constants[ordinal]? = some ref →
    ∃ symbol, scopes.symbol ref = .ok symbol ∧ symbol.StandsFor types root ordinal

/-- The integer in the slot of a constant is the place that it stands for. -/
theorem Symbol.StandsFor.constantValue_eq {symbol : Symbol} {types : TypeStore} {root : TypeId}
    {ordinal : ℕ} (hstands : symbol.StandsFor types root ordinal) (hless : ordinal < 2147483648) :
    symbol.constantValue .int = some (.int (Int32.ofNat ordinal)) := by
  obtain ⟨number, hreading, hnumber⟩ := hstands.value
  have htruncate : number.truncate = ordinal :=
    Decimal.Fraction.truncate_of_int (by rw [hnumber, Int.cast_natCast])
  have hclamp : (Decimal.Reading.finite number).clamp (-2147483648) 2147483647 = ordinal := by
    rw [Decimal.Reading.clamp, htruncate]
    omega
  rw [constantValue, constantValue.reading, hreading, hclamp]
  rfl

namespace Value

variable {value : Value} {constants : List SymbolRef} {scopes : ScopeStore}

/-- A value that counts to a constant has the name of it. -/
theorem constantName?_eq_some {number : Int32} {ordinal : ℕ} {ref : SymbolRef} {symbol : Symbol}
    (hvalue : value.ordinal? = some number) (hnumber : number.toInt = ordinal)
    (hlisted : constants[ordinal]? = some ref) (hsymbol : scopes.symbol ref = .ok symbol) :
    value.constantName? constants scopes = some symbol.name := by
  have hnonnegative : ¬ number.toInt < 0 := by omega
  have hplace : number.toInt.toNat = ordinal := by omega
  simp only [constantName?, hvalue, Option.bind_eq_bind, Option.bind_some, if_neg hnonnegative,
    hplace, hlisted, hsymbol]
  rfl

/-- A value that counts to no constant has no name. -/
theorem constantName?_eq_none {number : Int32} (hvalue : value.ordinal? = some number)
    (houtside : number.toInt < 0 ∨ (constants.length : ℤ) ≤ number.toInt) :
    value.constantName? constants scopes = none := by
  simp only [constantName?, hvalue, Option.bind_eq_bind, Option.bind_some]
  split
  · rfl
  · have hpast : constants[number.toInt.toNat]? = none := List.getElem?_eq_none (by omega)
    rw [hpast]
    rfl

end Value

/-- The constant is announced by its name, and its place by the same name. -/
theorem Symbol.StandsFor.fetchPiece_eq {symbol : Symbol} {types : TypeStore} {root : TypeId}
    {ordinal : ℕ} (hstands : symbol.StandsFor types root ordinal) (hreachable : types.Reachable)
    {constants : List SymbolRef} (hroot : types.shape root = .ok (.enumeration constants))
    {value : Value} {scopes : ScopeStore}
    (hname : value.constantName? constants scopes = some symbol.name) :
    symbol.fetchPiece value types scopes = .ok (.fetched symbol.name (some symbol.name)) := by
  obtain ⟨id, htype, hranges⟩ := hstands.type
  have hshown : symbol.shownType = id := by rw [shownType, htype, Option.getD_some]
  have hsubject : symbol.subject types = .ok symbol.name := by
    obtain ⟨shape, hshape, hranged⟩ := hranges.exists_shape hroot
    have hunmarked : formMark shape = "" := by
      cases shape with
      | enumeration _ | subrange _ _ _ => rfl
      | _ => exact hranged.elim
    simp only [subject, hshown, hshape, bind, Except.bind, hunmarked, String.append_empty]
    rfl
  have htext := hranges.render_eq hreachable hroot value scopes
  rw [hname, Option.getD_some] at htext
  simp only [fetchPiece, hsubject, hshown, htext, bind, Except.bind]
  rfl

namespace Machine

variable {env : Environment} {machine : Machine} {root : TypeId} {constants : List SymbolRef}

/-- A fetched constant is the integer that it stands for. It is announced if fetches are
traced. -/
theorem fetch_of_standsFor
    (hroot : machine.types.shape root = .ok (.enumeration constants)) {ordinal : ℕ}
    (hless : ordinal < 2147483648) {ref : SymbolRef} {symbol : Symbol}
    (hsymbol : env.scopes.symbol ref = .ok symbol)
    (hstands : symbol.StandsFor machine.types root ordinal) {piece : Piece}
    (hpiece : symbol.fetchPiece (.int (Int32.ofNat ordinal)) machine.types env.scopes =
      .ok piece) :
    fetch env ref machine = .ok (.int (Int32.ofNat ordinal))
      (if env.settings.trace.has .fetch then machine.emit piece else machine) := by
  obtain ⟨id, htype, hranges⟩ := hstands.type
  have hcode : machine.types.code (symbol.type.getD .int) = .ok .int := by
    rw [htype]
    exact hranges.code_eq hroot
  have hvalue : valueOf symbol ref machine = .ok (.int (Int32.ofNat ordinal)) machine := by
    rw [valueOf, hstands.defn]
    simp only [fetchConstant, bind, EStateM.bind, askTypes, hcode, hstands.constantValue_eq hless]
    rfl
  unfold fetch
  rw [hsymbol, ofScopes_ok_bind]
  simp only [bind, EStateM.bind, hvalue, announce, hpiece]
  cases env.settings.trace.has .fetch <;> rfl

/-- Constants of an enumeration show as themselves. Fetching the constant at some place gives
this place as an integer, and announces the constant, if fetches are traced, by its name on
both sides. Under the enumeration and under every subrange of it, of a subrange of it, and so
forth, each ordinal value that stands for the place shows as this name, and each that stands
for no place shows as its integer. -/
theorem constants_show_their_names
    (henumerates : machine.types.Enumerates env.scopes root constants) :
    (∀ (ordinal : ℕ) ref, constants[ordinal]? = some ref →
      ∃ (symbol : Symbol) (number : Int32), env.scopes.symbol ref = .ok symbol ∧
        number.toInt = ordinal ∧
        fetch env ref machine = .ok (.int number)
          (if env.settings.trace.has .fetch then
            machine.emit (.fetched symbol.name (some symbol.name)) else machine) ∧
        (Piece.fetched symbol.name (some symbol.name)).text =
          ">>   " ++ symbol.name ++ ": " ++ symbol.name ++ "\n" ∧
        ∀ type, machine.types.RangesOver root type →
          ∀ value : Value, value.ordinal? = some number →
            value.render type machine.types env.scopes = .ok (some symbol.name)) ∧
      ∀ type, machine.types.RangesOver root type →
        ∀ (value : Value) (number : Int32), value.ordinal? = some number →
          number.toInt < 0 ∨ (constants.length : ℤ) ≤ number.toInt →
            value.render type machine.types env.scopes =
              .ok (some (toString number.toInt)) := by
  obtain ⟨hreachable, hroot, hlength, hdeclared⟩ := henumerates
  constructor
  · intro ordinal ref hlisted
    obtain ⟨symbol, hsymbol, hstands⟩ := hdeclared ordinal ref hlisted
    have hless : ordinal < 2147483648 :=
      Nat.lt_of_lt_of_le (List.getElem?_eq_some_iff.mp hlisted).1 hlength
    have hnumber : (Int32.ofNat ordinal).toInt = ordinal := Int32.toInt_ofNat_of_lt hless
    have hnamed (value : Value) (hvalue : value.ordinal? = some (Int32.ofNat ordinal)) :
        value.constantName? constants env.scopes = some symbol.name :=
      Value.constantName?_eq_some hvalue hnumber hlisted hsymbol
    refine ⟨symbol, Int32.ofNat ordinal, hsymbol, hnumber, ?_, ?_, ?_⟩
    · exact fetch_of_standsFor hroot hless hsymbol hstands
        (hstands.fetchPiece_eq hreachable hroot (hnamed _ rfl))
    · change (">>   " ++ symbol.name ++ ": ") ++ (symbol.name ++ "\n") = _
      exact String.append_assoc.symm
    · intro type hranges value hvalue
      rw [hranges.render_eq hreachable hroot, hnamed value hvalue, Option.getD_some]
  · intro type hranges value number hvalue houtside
    have hinteger : value.integerText = toString number.toInt := by
      rw [Value.integerText, hvalue]
    rw [hranges.render_eq hreachable hroot, Value.constantName?_eq_none hvalue houtside,
      Option.getD_none, hinteger]

/-- Red, green and blue are the constants of an enumeration. The type of blue is a subrange
of a subrange of it. -/
def paint : Environment :=
  let color (name : String) (bits : UInt64) (type : TypeId) : Symbol :=
    { name, home := ⟨0⟩, value := ⟨bits⟩, type := some type, defn := .constant }
  { scopes := ⟨#[{ index := ⟨0⟩, symbols := #[color "red" 0 ⟨8⟩,
      color "green" 0x3ff0000000000000 ⟨8⟩, color "blue" 0x4000000000000000 ⟨10⟩] }]⟩,
    settings := { trace := .all } }

/-- The enumeration comes first, then the two subranges. -/
def paintTypes : TypeStore :=
  let color := (TypeStore.predefined.enumeration "color"
    [⟨⟨0⟩, ⟨0⟩⟩, ⟨⟨0⟩, ⟨1⟩⟩, ⟨⟨0⟩, ⟨2⟩⟩]).2
  let shade := (color.allocate { name := none, size := 4, shape := .subrange ⟨8⟩ 1 2 }).2
  (shade.allocate { name := none, size := 4, shape := .subrange ⟨9⟩ 2 2 }).2

theorem enumerates_paint : paintTypes.Enumerates paint.scopes ⟨8⟩
    [⟨⟨0⟩, ⟨0⟩⟩, ⟨⟨0⟩, ⟨1⟩⟩, ⟨⟨0⟩, ⟨2⟩⟩] where
  reachable := .allocate _ (.allocate _ (.allocate _ .predefined trivial) (by decide : 8 < 9))
    (by decide : 9 < 10)
  shape := rfl
  length_le := by decide
  declared := by
    intro ordinal ref hlisted
    have hless : ordinal < 3 := (List.getElem?_eq_some_iff.mp hlisted).1
    interval_cases ordinal <;> cases hlisted
    · exact ⟨_, rfl, rfl, ⟨⟨false, 0, -1074⟩, by decide, by simp [Decimal.Fraction.toRat]⟩,
        _, rfl, .refl⟩
    · exact ⟨_, rfl, rfl, ⟨⟨false, 2 ^ 52, -52⟩, by decide, by norm_num [Decimal.Fraction.toRat]⟩,
        _, rfl, .refl⟩
    · exact ⟨_, rfl, rfl, ⟨⟨false, 2 ^ 52, -51⟩, by decide, by norm_num [Decimal.Fraction.toRat]⟩,
        _, rfl, .subrange rfl (.subrange rfl .refl)⟩

theorem constants_show_their_names_blue :
    paintTypes.Enumerates paint.scopes ⟨8⟩ [⟨⟨0⟩, ⟨0⟩⟩, ⟨⟨0⟩, ⟨1⟩⟩, ⟨⟨0⟩, ⟨2⟩⟩] ∧
      fetch paint ⟨⟨0⟩, ⟨2⟩⟩ { types := paintTypes } = .ok (.int 2)
        ({ types := paintTypes : Machine }.emit (.fetched "blue" (some "blue"))) ∧
      (Value.int 2).render ⟨10⟩ paintTypes paint.scopes = .ok (some "blue") ∧
      (Value.char 2).render ⟨9⟩ paintTypes paint.scopes = .ok (some "blue") ∧
      (Value.int 3).render ⟨9⟩ paintTypes paint.scopes = .ok (some "3") ∧
      (Value.int (-1)).render ⟨10⟩ paintTypes paint.scopes = .ok (some "-1") := by
  have hshade : paintTypes.RangesOver ⟨8⟩ ⟨9⟩ := .subrange rfl .refl
  have htint : paintTypes.RangesOver ⟨8⟩ ⟨10⟩ := .subrange rfl hshade
  have hnames := @constants_show_their_names paint { types := paintTypes } _ _ enumerates_paint
  obtain ⟨symbol, number, hsymbol, hnumber, hfetch, -, hrender⟩ := hnames.1 2 _ rfl
  cases hsymbol
  have htwo : (2 : Int32).toInt = (2 : ℕ) := by decide
  obtain rfl := Int32.toInt_inj.mp (hnumber.trans htwo.symm)
  exact ⟨enumerates_paint, hfetch, hrender _ htint _ rfl, hrender _ hshade _ rfl,
    hnames.2 _ hshade _ 3 rfl (.inr (by decide)), hnames.2 _ htint _ (-1) rfl (.inl (by decide))⟩

end Machine

end ScopeMachine
