import ScalarC.Routine
import ScalarC.Settings

/-!
# The fixed part of a generated file

Includes, the typedefs and macros of the scalar types, the string type, and the
print routines, either defined or only declared.
-/

namespace ScalarC

namespace Preamble

def includes : List String :=
  ["#include <stdint.h>", "#include <stdio.h>", ""]

def typedef (ty : Scalar) : String :=
  "typedef " ++ ty.container ++ " " ++ ty.name ++ ";"

/-- What a typedef's comment says about the unused byte of a 24-bit type. -/
def typedefNote : Scalar → String
  | .u24 => " // 24-bit, upper byte kept zero"
  | .i24 => " // 24-bit, upper byte kept sign-extended"
  | _ => ""

def integerTypes : List Scalar := Scalar.all.filter (!·.isFixedPoint)

def fixedTypes : List Scalar := Scalar.all.filter (·.isFixedPoint)

def shiftDefinition (ty : Scalar) : Option String :=
  ty.fractionBits?.map fun bits => "#define " ++ ty.shiftName ++ " " ++ toString bits

def types : List String :=
  "// Scalar types" :: integerTypes.map (fun ty => typedef ty ++ typedefNote ty)
    ++ ["", "// Fixed-point types (raw scaled integers)"]
    ++ fixedTypes.map typedef
    ++ fixedTypes.filterMap shiftDefinition
    ++ ["", "// String type (length-prefixed)",
      "typedef struct \x7b",
      "    uint16_t len;",
      "    const char* data;",
      "\x7d String;", ""]

/-- Prints a fixed-point value with four decimal places. -/
def fixedBody (ty : Scalar) : List String :=
  let shift := ty.shiftName
  ["    int64_t raw = value;",
    "    if (raw < 0) \x7b",
    "        putchar('-');",
    "        raw = -raw;",
    "    \x7d",
    "    printf(\"%lld.%04lld\", (long long)(raw >> " ++ shift
      ++ "), (long long)(((raw & (((int64_t)1 << " ++ shift ++ ") - 1)) * 10000) >> " ++ shift
      ++ "));"]

/-- The statements of a print routine. -/
def routineBody : Routine → List String
  | .char => ["    putchar(value);"]
  | .newline => ["    putchar('\\n');"]
  | .string =>
    ["    if (str && str->data) \x7b",
      "        printf(\"%.*s\", (int)str->len, str->data);",
      "    \x7d"]
  | .fixed ty => fixedBody ty
  | .u24 => ["    printf(\"%lu\", (unsigned long)value);"]
  | .i8 | .i16 => ["    printf(\"%d\", (int)value);"]
  | .u8 | .u8Decimal | .u16 => ["    printf(\"%u\", (unsigned)value);"]

def routineDefinition (routine : Routine) : List String :=
  (routine.prototype ++ " \x7b") :: routineBody routine ++ ["\x7d", ""]

def routines : RoutineMode → List String
  | .linked =>
    "// Runtime support (linked separately)" :: Routine.all.map (·.prototype ++ ";") ++ [""]
  | .included => "// Runtime support" :: Routine.all.flatMap routineDefinition ++ [""]

/-- The whole preamble. -/
def lines (mode : RoutineMode) : List String :=
  includes ++ types ++ routines mode

end Preamble

end ScalarC
