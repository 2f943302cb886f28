import ScalarC.Scalar

/-!
# Compile errors

The reasons for which a unit is refused, and the wording of each. Only the first
one met is reported.
-/

namespace ScalarC

inductive CompileError where
  /-- Two owners of one C name. -/
  | symbolCollision (symbol first second : String)
  /-- Some path reaches a read of the local without assigning it. -/
  | unassignedLocal (function name : String)
  /-- A number outside the range of its type. -/
  | outOfRange (function : String) (value : Int) (ty : Scalar)
  | unknownLocal (function name : String)
  | duplicateLocal (function name : String)
  | unknownFunction (name : String)
  /-- A call spells a symbol that no function can have. -/
  | unsanitizedSymbol (symbol : String)
  | unknownConstant (function name : String)
  | arityMismatch (function callee : String) (expected found : Nat)
  /-- A path ends a function without the value it has to return. -/
  | missingReturn (function : String)
  /-- No print routine takes the type. -/
  | unprintable (function : String) (ty : Scalar)
  | invalidIdentifier (name : String)
  | invalidEntry (reason : String)
  | invalidSetting (reason : String)
  | fileAccess (reason : String)
  | internal (reason : String)
deriving DecidableEq, Repr

namespace CompileError

def message : CompileError → String
  | symbolCollision symbol first second =>
    "mangled symbol '" ++ symbol ++ "' is produced by both " ++ first ++ " and " ++ second
  | unassignedLocal function name =>
    "in " ++ function ++ ": local '" ++ name ++ "' is read before it is assigned on every path"
  | outOfRange function value ty =>
    "in " ++ function ++ ": literal " ++ toString value ++ " does not fit in " ++ ty.name
  | unknownLocal function name =>
    "in " ++ function ++ ": unknown local '" ++ name ++ "'"
  | duplicateLocal function name =>
    "in " ++ function ++ ": local '" ++ name ++ "' is declared more than once"
  | unknownFunction name => "unknown function '" ++ name ++ "'"
  | unsanitizedSymbol symbol => "symbol '" ++ symbol ++ "' is not in sanitized form"
  | unknownConstant function name =>
    "in " ++ function ++ ": unknown constant '" ++ name ++ "'"
  | arityMismatch function callee expected found =>
    "in " ++ function ++ ": call to " ++ callee ++ " passes " ++ toString found
      ++ " arguments, expected " ++ toString expected
  | missingReturn function =>
    "function " ++ function ++ " can reach its end without returning a value"
  | unprintable function ty =>
    "in " ++ function ++ ": no runtime support function prints " ++ ty.name
  | invalidIdentifier name => "'" ++ name ++ "' is not a valid identifier"
  | invalidEntry reason => "invalid entry point: " ++ reason
  | invalidSetting reason => "invalid option: " ++ reason
  | fileAccess reason => "IO error: " ++ reason
  | internal reason => "Internal compiler error: " ++ reason

/-- Text could not be written because a register or local has no type. -/
def unwritable : CompileError :=
  .internal "failed to format generated code"

end CompileError

end ScalarC
