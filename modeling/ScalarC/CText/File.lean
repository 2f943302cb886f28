import ScalarC.CText.Function
import ScalarC.CText.Preamble
import ScalarC.CText.StringBody

/-!
# Generated C files

A lowered unit becomes one C file: banner, preamble, string constants,
prototypes, definitions, and the `main` that calls the entry point. Prototypes
stand before all definitions, so that the order of functions does not matter.
-/

namespace ScalarC

namespace LoweredFunction

/-- The definitions of the string constants. -/
def stringLines (function : LoweredFunction) : List String :=
  function.strings.zipIdx.map fun (text, index) =>
    "static const String " ++ Name.ofString function.symbol index ++ " = \x7b "
      ++ toString text.utf8ByteSize ++ "u, \"" ++ StringBody.escape text ++ "\" \x7d;"

end LoweredFunction

namespace LoweredUnit

def bannerLines (settings : Settings) (unit : LoweredUnit) : List String :=
  if settings.banner then
    ["// MinZ C generated code", "// Unit: " ++ unit.name, "// Target: Standard C (C99)", ""]
  else []

/-- The string constants of all functions, if there are any. -/
def stringSection (unit : LoweredUnit) : List String :=
  let constants := unit.functions.flatMap (·.stringLines)
  if constants.isEmpty then [] else "// String constants" :: constants ++ [""]

/-- Prototypes of the functions, then of the aliases in order. -/
def prototypeSection (unit : LoweredUnit) : List String :=
  let prototypes :=
    unit.functions.map (·.signatureText ++ ";")
      ++ unit.aliases.entries.map (·.2.prototype ++ ";")
  if prototypes.isEmpty then [] else "// Function declarations" :: prototypes ++ [""]

/-- Definitions of the functions that are not external. -/
def definitionLines (settings : Settings) :
    List LoweredFunction → Except CompileError (List String)
  | [] => .ok []
  | function :: rest => do
    let first ←
      if function.isExternal then .ok []
      else (function.definition settings).map (· ++ [""])
    return first ++ (← definitionLines settings rest)

/-- The C `main`; without a result of the entry point it returns zero. -/
def mainLines (unit : LoweredUnit) : List String :=
  match unit.entry with
  | none => []
  | some entry =>
    ["int main(void) \x7b"]
      ++ (match entry.returnType with
          | some _ => ["    return (int)" ++ entry.symbol ++ "();"]
          | none => ["    " ++ entry.symbol ++ "();", "    return 0;"])
      ++ ["\x7d"]

/-- The lines of the C file. -/
def fileLines (settings : Settings) (unit : LoweredUnit) : Except CompileError (List String) := do
  let definitions ← definitionLines settings unit.functions
  return unit.bannerLines settings ++ Preamble.lines settings.routines ++ unit.stringSection
    ++ unit.prototypeSection ++ definitions ++ unit.mainLines

/-- The text of the C file. -/
def emit (settings : Settings) (unit : LoweredUnit) : Except CompileError String := do
  return unlines (← unit.fileLines settings)

end LoweredUnit

end ScalarC
