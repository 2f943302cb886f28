import ScalarC.CommandLine.Arguments
import ScalarC.Generate
import ScalarC.Json.Settings
import ScalarC.Json.Source

/-!
# Running commands

A command reads its files, generates C, and prints it or writes it to a file.
Warnings go to the error stream, and a failure there ends with status 1. Files are
reached through an interface, so that runs do not depend on a disk.
-/

namespace ScalarC

namespace CommandLine

/-- Why a file cannot be reached. -/
inductive FileFault where
  | missing
  | accessDenied
  | notDirectory
  | isDirectory
  | nameTooLong
  | other (reason : String)
deriving DecidableEq, Repr

/-- The system's text and number for a fault. -/
def FileFault.message : FileFault → String
  | missing => "No such file or directory (os error 2)"
  | accessDenied => "Permission denied (os error 13)"
  | notDirectory => "Not a directory (os error 20)"
  | isDirectory => "Is a directory (os error 21)"
  | nameTooLong => "File name too long (os error 36)"
  | other reason => reason

/-- Files as texts. -/
structure Files (m : Type → Type) where
  read : String → m (Except FileFault String)
  write : String → String → m (Except FileFault Unit)

/-- What a run leaves behind, its files apart. -/
structure Outcome where
  status : UInt32 := 0
  output : String := ""
  errors : String := ""

namespace Outcome

/-- Status 1, and the reason behind what the error stream holds already. -/
def failure (reason : String) (errors : String := "") : Outcome :=
  { status := 1, errors := errors ++ "error: " ++ reason ++ "\n" }

/-- A refused unit fails with its message. -/
def ofAbort (abort : Abort) (errors : String := "") : Outcome :=
  match abort with
  | .refused cause => failure cause.message errors
  | .missingRegister _ => { status := 101, errors }

/-- Status 2, for arguments that are not understood. -/
def usage : Outcome :=
  { status := 2
    errors := "error: invalid arguments\n\nUsage: mzc [OPTIONS] <COMMAND>\n" }

def version : Outcome := { output := "mzc 0.1.0\n" }

def help : Outcome :=
  { output :=
      "MinZ C backend\n\nUsage: mzc [OPTIONS] <COMMAND>\n\nCommands:\n"
        ++ "  compile  Compile a JSON unit description to C\n"
        ++ "  demo     Emit a built-in sample unit\n" }

def ofStop : Stop → Outcome
  | .usage => usage
  | .version => version
  | .help => help

end Outcome

/-- The diagnostics and their summary, if there are any. -/
def reportText (diagnostics : List Diagnostic) : String :=
  if diagnostics.isEmpty then ""
  else
    unlines (diagnostics.map (·.text) ++ [{ diagnostics : Report }.summary])

variable {m : Type → Type} [Monad m]

/-- Hands over a generated file: to the output stream, or to a named file. -/
def deliver (files : Files m) (generated : Generated) (output : Option String)
    (errors : String) : m Outcome := do
  let errors := errors ++ reportText generated.diagnostics
  match output with
  | none => return { output := generated.code, errors }
  | some path =>
    match ← files.write path generated.code with
    | .ok () => return { errors }
    | .error fault => return .failure fault.message errors

/-- Generates and hands over. -/
def generateAndDeliver (files : Files m) (unit : SourceUnit) (settings : Settings)
    (output : Option String) (errors : String) : m Outcome :=
  match unit.generate settings with
  | .ok generated => deliver files generated output errors
  | .error abort => return .ofAbort abort errors

/-- The listings of the lowered functions, an empty line behind each. -/
def loweredText (unit : SourceUnit) (settings : Settings) : Except Abort String := do
  let lowered ← unit.lower settings
  return unlines (lowered.functions.map (·.listing))

/-- Reads and decodes a file. -/
def readDocument {α : Type} (files : Files m) (decode? : String → Option α) (path : String) :
    m (Except String α) := do
  match ← files.read path with
  | .error fault => return .error fault.message
  | .ok text =>
    match decode? text with
    | some document => return .ok document
    | none => return .error "malformed document"

/-- The settings in a file, or the defaults. -/
def readSettings (files : Files m) (config : Option String) : m (Except String Settings) :=
  match config with
  | none => return .ok {}
  | some path => readDocument files (Json.decodeText? Settings.ofJson?) path

def runCompile (files : Files m) (input : String) (config output : Option String)
    (overrides : Overrides) (printLowered : Bool) : m Outcome := do
  match ← readDocument files (Json.decodeText? SourceUnit.ofJson?) input with
  | .error reason => return .failure reason
  | .ok unit =>
    match ← readSettings files config with
    | .error reason => return .failure reason
    | .ok loaded =>
      let settings := overrides.apply loaded
      match settings.check with
      | .error cause => return .failure cause.message
      | .ok () =>
        if printLowered then
          match loweredText unit settings with
          | .error abort => return .ofAbort abort
          | .ok listing => generateAndDeliver files unit settings output listing
        else
          generateAndDeliver files unit settings output ""

def runDemo (files : Files m) (name path : String) (output : Option String)
    (overrides : Overrides) : m Outcome :=
  match Sample.named? name path with
  | none => return .failure ("Unknown sample: " ++ name)
  | some unit => generateAndDeliver files unit (overrides.apply {}) output ""

/-- Runs the command that the arguments ask for. -/
def run (files : Files m) (args : List String) : m Outcome :=
  match parse args with
  | .error stop => return .ofStop stop
  | .ok (.compile input config output overrides printLowered) =>
    runCompile files input config output overrides printLowered
  | .ok (.demo name path output overrides) => runDemo files name path output overrides

end CommandLine

end ScalarC
