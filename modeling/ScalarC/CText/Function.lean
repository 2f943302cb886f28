import ScalarC.CText.Arithmetic
import ScalarC.Code.Listing

/-!
# C text of functions

A lowered function becomes a C definition: declarations of its locals and
registers, a `(void)` line for each that is never read, and the operations, nested
ones indented by four blanks. Types are looked up in the function's own tables; a
missing entry makes the function unwritable.
-/

namespace ScalarC

/-- The C spelling of a return type. -/
def returnTypeText : Option Scalar → String
  | some ty => ty.name
  | none => "void"

/-- A C parameter list. -/
def paramListText (params : List String) : String :=
  if params.isEmpty then "void" else ", ".intercalate params

namespace Signature

/-- A prototype with unnamed parameters, without a semicolon. -/
def prototype (signature : Signature) : String :=
  returnTypeText signature.returnType ++ " " ++ signature.symbol ++ "("
    ++ paramListText (signature.params.map Scalar.name) ++ ")"

end Signature

namespace LoweredFunction

/-- `u8 f(u8 v_a, u8 v_b)`. -/
def signatureText (function : LoweredFunction) : String :=
  returnTypeText function.returnType ++ " " ++ function.symbol ++ "("
    ++ paramListText (function.params.map fun p => p.ty.name ++ " " ++ Name.ofLocal p.name) ++ ")"

def typeOfRegister (function : LoweredFunction) (register : Register) :
    Except CompileError Scalar :=
  match function.registerType? register with
  | some ty => .ok ty
  | none => .error .unwritable

def typeOfLocal (function : LoweredFunction) (name : String) : Except CompileError Scalar :=
  match function.localType? name with
  | some ty => .ok ty
  | none => .error .unwritable

/-- `r2 = …;` -/
def assignment (indent target : String) (value : CExpr) : List String :=
  [indent ++ target ++ " = " ++ value.text ++ ";"]

/-- A register as an operand. -/
def operand (register : Register) : CExpr := .name register.name

/-- The argument of a print routine. -/
def printArgText (function : LoweredFunction) : PrintArg → String
  | .nothing => ""
  | .register source => source.name
  | .string index => "&" ++ Name.ofString function.symbol index

mutual

/-- The lines of an operation. An empty second arm is left out. -/
def opLines (function : LoweredFunction) (indent : String) :
    Op → Except CompileError (List String)
  | .loadConst dest value => .ok (assignment indent dest.name (.literal value))
  | .loadLocal dest name => .ok (assignment indent dest.name (.name (Name.ofLocal name)))
  | .copy dest src | .cast dest src => do
    let source ← function.typeOfRegister src
    let target ← function.typeOfRegister dest
    return assignment indent dest.name (.convert source target (operand src))
  | .storeLocal name src => do
    let target ← function.typeOfLocal name
    let source ← function.typeOfRegister src
    return assignment indent (Name.ofLocal name) (.convert source target (operand src))
  | .binary dest op lhs rhs => do
    let source ← function.typeOfRegister lhs
    let target ← function.typeOfRegister dest
    return assignment indent dest.name
      (.arithmetic op source target (operand lhs) (operand rhs))
  | .call dest callee args =>
    let call := callee ++ "(" ++ ", ".intercalate (args.map Register.name) ++ ");"
    match dest with
    | some dest => .ok [indent ++ dest.name ++ " = " ++ call]
    | none => .ok [indent ++ call]
  | .print routine arg =>
    .ok [indent ++ routine.name ++ "(" ++ function.printArgText arg ++ ");"]
  | .ret (some value) => .ok [indent ++ "return " ++ value.name ++ ";"]
  | .ret none => .ok [indent ++ "return;"]
  | .branch cond thenOps elseOps => do
    let thenLines ← opsLines function (indent ++ "    ") thenOps
    let elseLines ← opsLines function (indent ++ "    ") elseOps
    return (indent ++ "if (" ++ cond.name ++ ") \x7b") :: thenLines
      ++ (if elseOps.isEmpty then [] else (indent ++ "\x7d else \x7b") :: elseLines)
      ++ [indent ++ "\x7d"]
  | .loop condOps cond body => do
    let condLines ← opsLines function (indent ++ "    ") condOps
    let bodyLines ← opsLines function (indent ++ "    ") body
    return (indent ++ "while (1) \x7b") :: condLines
      ++ (indent ++ "    if (!" ++ cond.name ++ ") break;") :: bodyLines
      ++ [indent ++ "\x7d"]

def opsLines (function : LoweredFunction) (indent : String) :
    List Op → Except CompileError (List String)
  | [] => .ok []
  | op :: rest => do
    let first ← opLines function indent op
    return first ++ (← opsLines function indent rest)

end

/-- `    u8 r1 = 0;` -/
def declaration (ty : Scalar) (name : String) : String :=
  "    " ++ ty.name ++ " " ++ name ++ " = 0;"

/-- A line that uses a variable which nothing reads. -/
def unused (name : String) : String := "    (void)" ++ name ++ ";"

/-- The registers that the definition declares. -/
def declaredRegisters (settings : Settings) (function : LoweredFunction) : List RegisterRow :=
  function.registers.filter fun row => row.written || settings.declareReserved

/-- The declarations, then the `(void)` lines. -/
def headerLines (settings : Settings) (function : LoweredFunction) : List String :=
  let registers := function.declaredRegisters settings
  (function.locals.filter (!·.isParam)).map (fun l => declaration l.ty (Name.ofLocal l.name))
    ++ registers.map (fun row => declaration row.ty row.register.name)
    ++ (function.locals.filter (!·.read)).map (fun l => unused (Name.ofLocal l.name))
    ++ (registers.filter (!·.read)).map (fun row => unused row.register.name)

/-- The definition of a function, under a comment with its source name. -/
def definition (settings : Settings) (function : LoweredFunction) :
    Except CompileError (List String) := do
  let header := function.headerLines settings
  let body ← function.opsLines "    " function.ops
  return ["// " ++ function.name, function.signatureText ++ " \x7b"] ++ header
    ++ (if header.isEmpty || function.ops.isEmpty then [] else [""])
    ++ body ++ ["\x7d"]

end LoweredFunction

end ScalarC
