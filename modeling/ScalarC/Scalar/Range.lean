import ScalarC.Scalar

/-!
# Ranges and wraparound

A value of a scalar type is an integer in the type's range. Any other integer is
reduced modulo the number of bits that survive a store: the logical width for
integer types, the container width for fixed-point types. The container view is
the 32-bit pattern of a value.
-/

namespace ScalarC

namespace Scalar

/-- Bits that survive wraparound. -/
def wrapBits (ty : Scalar) : Nat :=
  if ty.isFixedPoint then ty.width else ty.logicalBits

def minValue (ty : Scalar) : Int :=
  if ty.isSigned then -twoPow (ty.wrapBits - 1) else 0

def maxValue (ty : Scalar) : Int :=
  if ty.isSigned then twoPow (ty.wrapBits - 1) - 1 else twoPow ty.wrapBits - 1

/-- Whether a value lies in the range of the type. -/
def fits (ty : Scalar) (value : Int) : Bool :=
  decide (ty.minValue ≤ value) && decide (value ≤ ty.maxValue)

/-- The value reduced modulo the surviving bits, the top one read as a sign for
signed types: `u8.wrap 300 = 44`. -/
def wrap (ty : Scalar) (value : Int) : Int :=
  if ty.isSigned then value.bmod (twoPow ty.wrapBits) else value % twoPow ty.wrapBits

/-- The container's bit pattern of a value, extended to 32 bits. -/
def toBits (ty : Scalar) (value : Int) : UInt32 :=
  UInt32.ofInt (ty.wrap value)

/-- The value that a container's bit pattern stands for. -/
def ofBits (ty : Scalar) (bits : UInt32) : Int :=
  ty.wrap bits.toNat

end Scalar

end ScalarC
