import ScalarC.Settings
import ScalarC.Source.Sample

/-!
# Command-line arguments

The arguments name a command, `compile INPUT` or `demo`, with options. A long
option takes its value behind `=` or as the next argument; short options can be
joined, and one that takes a value takes the rest of its argument. `--` ends the
options. Arguments are read from left to right, and the first fault counts.
-/

namespace ScalarC

namespace CommandLine

/-- Why the arguments give no command. -/
inductive Stop where
  /-- They are not understood. -/
  | usage
  | version
  | help
deriving DecidableEq, Repr

/-- What stands behind an option. -/
inductive ValueKind where
  /-- Nothing: the option is a flag. -/
  | flag
  | text
  /-- The name of a file, which may not be empty. -/
  | file
deriving DecidableEq, Repr

/-- An option that a command accepts. -/
structure OptionSpec where
  long : String
  short : Option Char := none
  kind : ValueKind := .flag

def OptionSpec.takesValue (spec : OptionSpec) : Bool := spec.kind != .flag

def helpOption : OptionSpec := { long := "help", short := some 'h' }

def versionOption : OptionSpec := { long := "version", short := some 'V' }

def verboseOption : OptionSpec := { long := "verbose", short := some 'v' }

def outputOption : OptionSpec := { long := "output", short := some 'o', kind := .file }

/-- The options in front of a command. -/
def generalOptions : List OptionSpec := [verboseOption, helpOption, versionOption]

/-- The options that change settings. -/
def overrideOptions : List OptionSpec :=
  [{ long := "legacy-mangling" }, { long := "extern-runtime" },
    { long := "entry", kind := .text }, { long := "no-entry" }]

def compileOptions : List OptionSpec :=
  [outputOption, { long := "config", kind := .file }, { long := "print-lowered" },
    verboseOption, helpOption] ++ overrideOptions

def demoOptions : List OptionSpec :=
  [{ long := "name", short := some 'n', kind := .text },
    { long := "path", kind := .text }, outputOption, verboseOption, helpOption]
    ++ overrideOptions

/-- The options and other arguments met so far. -/
structure Given where
  /-- Options by long name; the value of a flag is empty. -/
  options : List (String × String) := []
  operands : List String := []

namespace Given

def has (given : Given) (long : String) : Bool :=
  given.options.any (·.1 == long)

def value? (given : Given) (long : String) : Option String :=
  given.options.lookup long

/-- Records an option. No option may be given twice, a file has a name, and the
options for help and version stop at once. -/
def addOption (given : Given) (spec : OptionSpec) (value : String) : Except Stop Given :=
  if spec.long == "help" then .error .help
  else if spec.long == "version" then .error .version
  else if given.has spec.long then .error .usage
  else if spec.kind == .file && value.isEmpty then .error .usage
  else .ok { given with options := given.options ++ [(spec.long, value)] }

/-- Records an argument that is no option: the name of a file, of which a command
takes at most `limit`. -/
def addOperand (limit : Nat) (given : Given) (operand : String) : Except Stop Given :=
  if operand.isEmpty || limit ≤ given.operands.length then .error .usage
  else .ok { given with operands := given.operands ++ [operand] }

end Given

/-- A value as an argument of its own: it may not look like an option. -/
def isValue (arg : String) : Bool :=
  match arg.toList with
  | '-' :: _ :: _ => false
  | _ => true

/-- An option that is complete, or one that waits for its value. -/
inductive Step where
  | done (given : Given)
  | awaits (given : Given) (spec : OptionSpec)

/-- A long option, behind its two hyphens. -/
def longOption (specs : List OptionSpec) (given : Given) (body : List Char) : Except Stop Step :=
  let (long, rest) := body.span (· != '=')
  match specs.find? (·.long == String.ofList long), rest with
  | none, _ => .error .usage
  | some spec, [] =>
    if spec.takesValue then .ok (.awaits given spec) else (given.addOption spec "").map .done
  | some spec, _ :: value =>
    if spec.takesValue then (given.addOption spec (String.ofList value)).map .done
    else .error .usage

/-- Joined short options, behind their hyphen. -/
def shortOptions (specs : List OptionSpec) (given : Given) : List Char → Except Stop Step
  | [] => .ok (.done given)
  | c :: rest =>
    match specs.find? (·.short == some c) with
    | none => .error .usage
    | some spec =>
      if spec.takesValue then
        match rest with
        | [] => .ok (.awaits given spec)
        | '=' :: value => (given.addOption spec (String.ofList value)).map .done
        | value => (given.addOption spec (String.ofList value)).map .done
      else
        match given.addOption spec "" with
        | .ok given => shortOptions specs given rest
        | .error stop => .error stop

/-- An argument that starts with a hyphen, if it does. -/
def option? (specs : List OptionSpec) (given : Given) (arg : String) : Option (Except Stop Step) :=
  match arg.toList with
  | '-' :: '-' :: body => some (longOption specs given body)
  | '-' :: c :: body => some (shortOptions specs given (c :: body))
  | _ => none

/-- Reads all arguments of a command with the given options, which takes at most
`limit` others. -/
def scan (specs : List OptionSpec) (limit : Nat) (given : Given) :
    List String → Except Stop Given
  | [] => .ok given
  | arg :: rest =>
    if arg == "--" then rest.foldlM (Given.addOperand limit) given
    else
      match option? specs given arg with
      | none =>
        match given.addOperand limit arg with
        | .ok given => scan specs limit given rest
        | .error stop => .error stop
      | some (.error stop) => .error stop
      | some (.ok (.done given)) => scan specs limit given rest
      | some (.ok (.awaits given spec)) =>
        match rest with
        | [] => .error .usage
        | value :: rest =>
          if isValue value then
            match given.addOption spec value with
            | .ok given => scan specs limit given rest
            | .error stop => .error stop
          else .error .usage

/-- Changes to the settings. -/
structure Overrides where
  legacySpelling : Bool := false
  linkedRoutines : Bool := false
  entry : Option String := none
  noEntry : Bool := false
deriving DecidableEq, Repr

namespace Overrides

def ofGiven (given : Given) : Except Stop Overrides :=
  if given.has "entry" && given.has "no-entry" then .error .usage
  else
    .ok {
      legacySpelling := given.has "legacy-mangling"
      linkedRoutines := given.has "extern-runtime"
      entry := given.value? "entry"
      noEntry := given.has "no-entry" }

def apply (overrides : Overrides) (settings : Settings) : Settings :=
  { settings with
    spelling := if overrides.legacySpelling then .legacy else settings.spelling
    routines := if overrides.linkedRoutines then .linked else settings.routines
    entry :=
      if overrides.noEntry then none
      else match overrides.entry with
        | some name => some name
        | none => settings.entry }

end Overrides

/-- What the command line asks for. -/
inductive Command where
  /-- Compiles the unit in a file. -/
  | compile (input : String) (config output : Option String) (overrides : Overrides)
      (printLowered : Bool)
  /-- Compiles a sample. -/
  | demo (name path : String) (output : Option String) (overrides : Overrides)
deriving DecidableEq, Repr

def compileCommand (args : List String) : Except Stop Command := do
  let given ← scan compileOptions 1 {} args
  match given.operands with
  | [input] =>
    return .compile input (given.value? "config") (given.value? "output")
      (← Overrides.ofGiven given) (given.has "print-lowered")
  | _ => throw .usage

def demoCommand (args : List String) : Except Stop Command := do
  let given ← scan demoOptions 0 {} args
  return .demo ((given.value? "name").getD "simple_add")
    ((given.value? "path").getD Sample.defaultPath) (given.value? "output")
    (← Overrides.ofGiven given)

/-- The arguments of the help command. -/
def helpCommand : List String → Except Stop Command
  | [] | ["compile"] | ["demo"] | ["help"] => .error .help
  | _ => .error .usage

/-- Reads the arguments in front of a command, and then those of the command. -/
def commandOf (given : Given) : List String → Except Stop Command
  | [] => .error .usage
  | arg :: rest =>
    match option? generalOptions given arg with
    | some (.ok (.done given)) => commandOf given rest
    | some (.ok (.awaits _ _)) => .error .usage
    | some (.error stop) => .error stop
    | none =>
      match arg with
      | "compile" => compileCommand rest
      | "demo" => demoCommand rest
      | "help" => helpCommand rest
      | _ => .error .usage

/-- The command that arguments ask for. -/
def parse (args : List String) : Except Stop Command :=
  commandOf {} args

end CommandLine

end ScalarC
