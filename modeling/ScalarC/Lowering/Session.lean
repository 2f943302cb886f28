import ScalarC.Code
import ScalarC.LocalTable.Index
import ScalarC.Scalar.Range

/-!
# Lowering sessions

Lowering one function threads a `Session`: the register table, the local table,
the string constants, the alias spellings and the warnings so far. This module
holds the session, what all functions of a unit share, and the primitive steps.
-/

namespace ScalarC

/-- Why lowering stops. -/
inductive Abort where
  /-- The unit is refused. -/
  | refused (cause : CompileError)
  /-- A register has no row in its table. -/
  | missingRegister (register : Register)
deriving DecidableEq, Repr

/-- What the functions of a unit share. -/
structure Shared where
  settings : Settings
  registry : Registry
  /-- Signatures by identity; the first match counts. -/
  signatures : List (FunctionId × Signature)
  /-- Constants by name; the first match counts. -/
  constants : List Constant

namespace Shared

def signature? (shared : Shared) (id : FunctionId) : Option Signature :=
  (shared.signatures.find? (·.1 == id)).map (·.2)

def constant? (shared : Shared) (name : String) : Option Constant :=
  shared.constants.find? (·.name == name)

end Shared

/-- What the lowering of one function has built so far. -/
structure Session where
  registers : RegisterTable := {}
  locals : LocalTable
  indexed : locals.Indexed
  strings : List String := []
  aliases : NameTable FunctionId := .empty
  diagnostics : List Diagnostic := []

/-- The session in which the lowering of a function starts. -/
def SourceFunction.session (function : SourceFunction) : Session where
  locals := { function := function.title }
  indexed := LocalTable.indexed_new function.title

/-- A step of lowering. -/
abbrev Lower := StateT Session (Except Abort)

namespace Lower

def refuse {α : Type} (cause : CompileError) : Lower α :=
  fun _ => .error (.refused cause)

/-- The result of a check that may refuse the unit. -/
def lift {α : Type} (result : Except CompileError α) : Lower α :=
  match result with
  | .ok a => pure a
  | .error cause => refuse cause

/-- Hands out a register that no operation writes. -/
def reserve (ty : Scalar) : Lower Register :=
  fun s =>
    let (register, registers) := s.registers.allocate ty
    .ok (register, { s with registers })

def markWritten (register : Register) : Lower Unit :=
  fun s =>
    match s.registers.markWritten? register with
    | some registers => .ok ((), { s with registers })
    | none => .error (.missingRegister register)

/-- Records that the next operation uses a register. -/
def markRead (register : Register) : Lower Unit :=
  fun s =>
    match s.registers.markRead? register with
    | some registers => .ok ((), { s with registers })
    | none => .error (.missingRegister register)

def typeOf (register : Register) : Lower Scalar :=
  fun s =>
    match s.registers.typeOf? register with
    | some ty => .ok (ty, s)
    | none => .error (.missingRegister register)

/-- Hands out a register that the next operation writes. -/
def define (ty : Scalar) : Lower Register := do
  let register ← reserve ty
  markWritten register
  return register

/-- Makes a step on the local table. -/
def onLocals {α : Type} (step : LocalStep α) (keeps : step.KeepsIndex) : Lower α :=
  fun s =>
    match h : step s.locals with
    | .ok a locals => .ok (a, { s with locals, indexed := keeps s.indexed h })
    | .error cause _ => .error (.refused cause)

/-- Records a read of a local and gives its type. -/
def readLocal (name : String) : Lower Scalar :=
  onLocals (.read name) (LocalStep.keepsIndex_read name)

/-- Records an assignment of a local. -/
def assignLocal (name : String) : Lower Unit := do
  let _ ← onLocals (.assign name) (LocalStep.keepsIndex_assign name)

def declareLocal (name : String) (ty : Scalar) : Lower Unit :=
  onLocals (.declareLocal name ty) (LocalStep.keepsIndex_declareLocal name ty)

def declareParam (name : String) (ty : Scalar) : Lower Unit :=
  onLocals (.declareParam name ty) (LocalStep.keepsIndex_declareParam name ty)

/-- The slots assigned at this point. -/
def assigned : Lower SlotSet := do
  return (← get).locals.assigned

def restoreAssigned (slots : SlotSet) : Lower Unit :=
  modify fun s => { s with locals := s.locals.restore slots }

/-- Adds a string constant and gives its number. -/
def addString (text : String) : Lower Nat := do
  let index := (← get).strings.length
  modify fun s => { s with strings := s.strings ++ [text] }
  return index

def addAlias (symbol : Symbol) (target : FunctionId) : Lower Unit :=
  modify fun s => { s with aliases := s.aliases.insert symbol target }

def warn (diagnostic : Diagnostic) : Lower Unit :=
  modify fun s => { s with diagnostics := s.diagnostics ++ [diagnostic] }

end Lower

end ScalarC
