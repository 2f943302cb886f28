import ScalarC.FixedPoint

/-!
# Scalar types

The thirteen scalar types of the source language, with their storage layout and
their C spelling. A type lives in a C container of 8, 16 or 32 bits. The 24-bit
types have no C counterpart and live in a 32-bit container; fixed-point types are
scaled integers in a signed container.
-/

namespace ScalarC

/-- The scalar types, in the order in which a generated file declares them. -/
inductive Scalar where
  | u8
  | u16
  | u24
  | u32
  | i8
  | i16
  | i24
  | i32
  | f8_8
  | f_8
  | f_16
  | f16_8
  | f8_16
deriving DecidableEq, Repr, Ord

namespace Scalar

/-- Every scalar type, in declaration order. -/
def all : List Scalar :=
  [u8, u16, u24, u32, i8, i16, i24, i32, f8_8, f_8, f_16, f16_8, f8_16]

theorem mem_all (ty : Scalar) : ty ∈ all := by
  cases ty <;> decide

/-- The name of the type, which is also its C typedef. -/
def name : Scalar → String
  | u8 => "u8"
  | u16 => "u16"
  | u24 => "u24"
  | u32 => "u32"
  | i8 => "i8"
  | i16 => "i16"
  | i24 => "i24"
  | i32 => "i32"
  | f8_8 => "f8_8"
  | f_8 => "f_8"
  | f_16 => "f_16"
  | f16_8 => "f16_8"
  | f8_16 => "f8_16"

/-- The type with the given name. -/
def ofName? (text : String) : Option Scalar :=
  all.find? fun ty => ty.name == text

theorem ofName?_name (ty : Scalar) : ofName? ty.name = some ty := by
  cases ty <;> decide

/-- Bits of the C container. -/
def width : Scalar → Nat
  | u8 | i8 => 8
  | u16 | i16 | f8_8 | f_8 | f_16 => 16
  | u24 | u32 | i24 | i32 | f16_8 | f8_16 => 32

/-- Whether the container is signed. -/
def isSigned : Scalar → Bool
  | u8 | u16 | u24 | u32 => false
  | _ => true

/-- The layout of a fixed-point type. -/
def fixedPoint? : Scalar → Option FixedPoint
  | f8_8 => some ⟨16, 8, true⟩
  | f_8 => some ⟨8, 8, true⟩
  | f_16 => some ⟨16, 16, true⟩
  | f16_8 => some ⟨24, 8, true⟩
  | f8_16 => some ⟨24, 16, true⟩
  | _ => none

def isFixedPoint (ty : Scalar) : Bool :=
  ty.fixedPoint?.isSome

/-- Fraction bits of a fixed-point type. -/
def fractionBits? (ty : Scalar) : Option Nat :=
  ty.fixedPoint?.map (·.fractionBits)

/-- Bits that the type logically holds. -/
def logicalBits (ty : Scalar) : Nat :=
  match ty.fixedPoint? with
  | some format => format.totalBits
  | none =>
    match ty with
    | u24 | i24 => 24
    | _ => ty.width

/-- The exact-width C type that backs the typedef. -/
def container (ty : Scalar) : String :=
  match ty.width, ty.isSigned with
  | 8, false => "uint8_t"
  | 8, true => "int8_t"
  | 16, false => "uint16_t"
  | 16, true => "int16_t"
  | _, false => "uint32_t"
  | _, true => "int32_t"

/-- The C macro that holds the fraction bits of a fixed-point type. -/
def shiftName (ty : Scalar) : String :=
  String.ofList (ty.name.toList.map Char.toUpper) ++ "_SHIFT"

end Scalar

end ScalarC
