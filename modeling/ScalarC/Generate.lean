import ScalarC.CText.File
import ScalarC.Lowering.Unit

/-!
# Code generation

From a source unit to its C file: the unit is lowered to register code, and that
is written as C.
-/

namespace ScalarC

/-- A C file with the warnings of its unit. -/
structure Generated where
  code : String
  diagnostics : List Diagnostic

namespace SourceUnit

/-- Generates the C file of a unit. -/
def generate (unit : SourceUnit) (settings : Settings) : Except Abort Generated := do
  let lowered ← unit.lower settings
  let code ← (lowered.emit settings).mapError .refused
  return { code, diagnostics := lowered.diagnostics }

end SourceUnit

end ScalarC
