import ScalarC.CompileError

/-!
# Settings

What the caller can choose about the generated code. Every setting has a default.
-/

namespace ScalarC

/-- How paths and modules are spelled inside symbols. -/
inductive Spelling where
  /-- Every character outside `[A-Za-z0-9_]` becomes an underscore. -/
  | canonical
  /-- Hyphens and dots are kept, and calls may spell them either way. -/
  | legacy
deriving DecidableEq, Repr

/-- Where the print routines are defined. -/
inductive RoutineMode where
  /-- In the generated file. -/
  | included
  /-- Elsewhere; the file holds prototypes only. -/
  | linked
deriving DecidableEq, Repr

/-- What happens to a literal outside the range of its type. -/
inductive OverflowPolicy where
  /-- A warning, and the wrapped value. -/
  | warn
  | reject
deriving DecidableEq, Repr

structure Settings where
  spelling : Spelling := .canonical
  /-- Stands before every parameter type in a symbol. -/
  delimiter : Char := '$'
  routines : RoutineMode := .included
  /-- Source name of the function that the C `main` calls, if any. -/
  entry : Option String := some "main"
  overflow : OverflowPolicy := .warn
  /-- Declare also the registers that are never written. -/
  declareReserved : Bool := false
  /-- Start the file with a comment block. -/
  banner : Bool := true
deriving DecidableEq, Repr

namespace Settings

def legacy : Settings := { spelling := .legacy }

/-- White space among the ASCII characters. -/
def isBlank (c : Char) : Bool :=
  c == ' ' || (decide ('\t' ≤ c) && decide (c ≤ '\r'))

/-- A delimiter can neither be part of an identifier nor separate directories,
and an entry point has a name. -/
def check (settings : Settings) : Except CompileError Unit := do
  let d := settings.delimiter
  if d.isAlphanum || d == '_' || isBlank d || decide (128 ≤ d.toNat) then
    throw (.invalidSetting ("parameter delimiter '" ++ String.singleton d
      ++ "' must be an ASCII non-identifier character"))
  if d == '/' || d == '\\' then
    throw (.invalidSetting ("parameter delimiter '" ++ String.singleton d
      ++ "' collides with path separators"))
  if settings.entry == some "" then
    throw (.invalidSetting "entry point name is empty")

end Settings

end ScalarC
