/-!
# Diagnostics

Findings that do not stop code generation: a severity, a message, an optional
position in the source and further notes. A `Report` collects them in order and
counts errors and warnings.
-/

namespace ScalarC

/-- A place in a source file; lines and columns count from one. -/
structure Position where
  file : String
  line : UInt32
  column : UInt32
deriving DecidableEq, Repr

namespace Position

/-- The position used where none is known. -/
def unknown : Position := ⟨"<unknown>", 0, 0⟩

/-- Line zero marks a position that names no line. -/
def isUnknown (position : Position) : Bool :=
  position.line == 0

/-- `file:line:column`, or the file alone for an unknown line. -/
def text (position : Position) : String :=
  if position.isUnknown then
    position.file
  else
    position.file ++ ":" ++ toString position.line.toNat ++ ":" ++ toString position.column.toNat

end Position

inductive Severity where
  | error
  | warning
  | note
deriving DecidableEq, Repr

namespace Severity

/-- The word that starts the text of a diagnostic. -/
def text : Severity → String
  | error => "error"
  | warning => "warning"
  | note => "note"

end Severity

structure Diagnostic where
  severity : Severity
  message : String
  position : Option Position
  notes : List String := []
deriving DecidableEq, Repr

namespace Diagnostic

def withNote (diagnostic : Diagnostic) (note : String) : Diagnostic :=
  { diagnostic with notes := diagnostic.notes ++ [note] }

/-- The position if there is one, the severity, the message, and one indented
line per note. -/
def text (diagnostic : Diagnostic) : String :=
  (match diagnostic.position with
    | some position => position.text ++ ": "
    | none => "")
  ++ diagnostic.severity.text ++ ": " ++ diagnostic.message
  ++ String.join (diagnostic.notes.map ("\n  note: " ++ ·))

end Diagnostic

/-- The diagnostics of one run, oldest first. -/
structure Report where
  diagnostics : List Diagnostic := []
deriving DecidableEq, Repr

namespace Report

def add (report : Report) (diagnostic : Diagnostic) : Report :=
  { diagnostics := report.diagnostics ++ [diagnostic] }

def count (report : Report) (severity : Severity) : Nat :=
  report.diagnostics.countP (·.severity == severity)

def errors (report : Report) : Nat := report.count .error

def warnings (report : Report) : Nat := report.count .warning

def hasErrors (report : Report) : Bool := 0 < report.errors

/-- `1 warning`, `2 warnings`. -/
def counted (n : Nat) (noun : String) : String :=
  toString n ++ " " ++ noun ++ (if n = 1 then "" else "s")

/-- How many errors and warnings there are, leaving out a kind without any. -/
def summary (report : Report) : String :=
  match report.errors, report.warnings with
  | 0, 0 => "No errors or warnings"
  | 0, w => counted w "warning"
  | e, 0 => counted e "error"
  | e, w => counted e "error" ++ " and " ++ counted w "warning"

end Report

end ScalarC
