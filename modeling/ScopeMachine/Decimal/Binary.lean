/-
# Binary floating-point numbers

The numbers that programs compute with are kept as their bits, in the layouts of
IEEE 754 for 32 and for 64 bits, so that every number is told apart from every
other, also the zeros and what is not a number. Arithmetic is left to the
processor, which rounds to the nearest number and a tie to the even one.
-/

import ScopeMachine.Decimal.Reading

namespace ScopeMachine

/-- A floating-point number of 32 bits. -/
structure Binary32 where
  /-- The bits: sign, eight of the exponent, the fraction. -/
  bits : UInt32
deriving DecidableEq, Inhabited

/-- A floating-point number of 64 bits. -/
structure Binary64 where
  /-- The bits: sign, eleven of the exponent, the fraction. -/
  bits : UInt64
deriving DecidableEq, Inhabited

namespace Binary32

/-- The exact value. -/
def reading (number : Binary32) : Decimal.Reading :=
  .ofBits 8 23 number.bits.toNat

/-- The number that the processor holds as `value`. -/
def ofFloat32 (value : Float32) : Binary32 :=
  ⟨value.toBits⟩

/-- The number as the processor holds it. -/
def toFloat32 (number : Binary32) : Float32 :=
  Float32.ofBits number.bits

/-- What is not a number, with a sign. -/
def nan (negative : Bool) : Binary32 :=
  ⟨if negative then 0xffc00000 else 0x7fc00000⟩

/-- The number nearest to an integer. -/
def ofInt32 (n : Int32) : Binary32 :=
  ofFloat32 n.toFloat32

/-- The sum. -/
def add (first second : Binary32) : Binary32 :=
  ofFloat32 (first.toFloat32 + second.toFloat32)

/-- The difference. -/
def sub (first second : Binary32) : Binary32 :=
  ofFloat32 (first.toFloat32 - second.toFloat32)

/-- The product. -/
def mul (first second : Binary32) : Binary32 :=
  ofFloat32 (first.toFloat32 * second.toFloat32)

instance : Add Binary32 := ⟨add⟩
instance : Sub Binary32 := ⟨sub⟩
instance : Mul Binary32 := ⟨mul⟩

end Binary32

namespace Binary64

/-- The exact value. -/
def reading (number : Binary64) : Decimal.Reading :=
  .ofBits 11 52 number.bits.toNat

/-- The nearest number of 32 bits. What is not a number keeps its sign. -/
def toBinary32 (number : Binary64) : Binary32 :=
  match number.reading with
  | .nan negative => .nan negative
  | _ => .ofFloat32 (Float.ofBits number.bits).toFloat32

end Binary64

end ScopeMachine
