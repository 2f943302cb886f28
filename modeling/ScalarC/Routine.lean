import ScalarC.Scalar

/-!
# Print routines

Generated code prints through a small fixed set of C functions. This is the one
place that knows their names and parameters.
-/

namespace ScalarC

/-- A print routine. -/
inductive Routine where
  | char
  | u8
  | u8Decimal
  | u16
  | u24
  | i8
  | i16
  | newline
  | string
  /-- The decimal text of a fixed-point value. -/
  | fixed (ty : Scalar)
deriving DecidableEq, Repr

/-- What a routine takes. -/
inductive RoutineParam where
  | nothing
  | scalar (ty : Scalar)
  | string
deriving DecidableEq, Repr

namespace Routine

/-- Every routine, in the order of a generated file. -/
def all : List Routine :=
  [char, u8, u8Decimal, u16, u24, i8, i16, newline, string]
    ++ (Scalar.all.filter Scalar.isFixedPoint).map fixed

/-- The routine that prints numbers of a type, if there is one. -/
def printer? : Scalar → Option Routine
  | .u8 => some u8
  | .u16 => some u16
  | .u24 => some u24
  | .i8 => some i8
  | .i16 => some i16
  | .u32 | .i24 | .i32 => none
  | ty => some (fixed ty)

/-- The C name. -/
def name : Routine → String
  | char => "print_char"
  | u8 => "print_u8"
  | u8Decimal => "print_u8_decimal"
  | u16 => "print_u16"
  | u24 => "print_u24"
  | i8 => "print_i8"
  | i16 => "print_i16"
  | newline => "print_newline"
  | string => "print_string"
  | fixed ty => "print_" ++ ty.name

def param : Routine → RoutineParam
  | char | u8 | u8Decimal => .scalar .u8
  | u16 => .scalar .u16
  | u24 => .scalar .u24
  | i8 => .scalar .i8
  | i16 => .scalar .i16
  | newline => .nothing
  | string => .string
  | fixed ty => .scalar ty

/-- A routine that prints numbers of a type takes that type. -/
theorem param_of_printer? {ty : Scalar} {routine : Routine} (h : printer? ty = some routine) :
    routine.param = .scalar ty := by
  cases ty <;> simp only [printer?, Option.some.injEq, reduceCtorEq] at h <;> subst h <;> rfl

/-- The C prototype, without a semicolon. -/
def prototype (routine : Routine) : String :=
  "void " ++ routine.name ++
    match routine.param with
    | .nothing => "(void)"
    | .scalar ty => "(" ++ ty.name ++ " value)"
    | .string => "(const String* str)"

end Routine

end ScalarC
