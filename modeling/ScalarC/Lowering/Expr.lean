import ScalarC.Lowering.Session

/-!
# Lowering of expressions

Every node of an expression lands in a fresh register, operands before the node.
The arguments of a call are all evaluated, left to right, and then copied into
registers of the parameter types right before the call.
-/

namespace ScalarC

/-- The function that is being lowered, and what it shares with the unit. -/
structure Scope where
  shared : Shared
  function : SourceFunction

namespace Scope

/-- How messages call the function. -/
def title (scope : Scope) : String := scope.function.title

/-- The warning about a literal that is wrapped. -/
def wrapWarning (scope : Scope) (value wrapped : Int) (ty : Scalar) : Diagnostic where
  severity := .warning
  message :=
    "in " ++ scope.title ++ ": literal " ++ toString value ++ " does not fit in " ++ ty.name
  position := scope.function.position
  notes := ["the value wraps to " ++ toString wrapped]

/-- A literal's value in the range of its type: a value outside is refused or
wrapped with a warning, as the settings say. -/
def literalValue (scope : Scope) (value : Int) (ty : Scalar) : Lower Int :=
  if ty.fits value then
    return value
  else
    match scope.shared.settings.overflow with
    | .reject => Lower.refuse (.outOfRange scope.title value ty)
    | .warn => do
      let wrapped := ty.wrap value
      Lower.warn (scope.wrapWarning value wrapped ty)
      return wrapped

/-- Loads a literal into a fresh register. -/
def lowerLiteral (scope : Scope) (value : Int64) (ty : Scalar) :
    Lower (Register × List Op) := do
  let wrapped ← scope.literalValue value.toInt ty
  let dest ← Lower.define ty
  return (dest, [.loadConst dest wrapped])

/-- The symbol and signature of a call's target. A spelling that differs from the
definition is recorded as an alias. -/
def lowerCallee (scope : Scope) : Callee → Lower (Symbol × Signature)
  | .function id =>
    match scope.shared.signature? id with
    | some signature => return (signature.symbol, signature)
    | none => Lower.refuse (.unknownFunction id.text)
  | .symbol spelling => do
    let resolved ← Lower.lift (scope.shared.registry.resolveSymbol spelling)
    match scope.shared.signature? resolved.target with
    | some signature =>
      if resolved.isAlias then
        Lower.addAlias resolved.symbol resolved.target
      return (resolved.symbol, signature)
    | none => Lower.refuse (.unknownFunction spelling)

/-- Copies evaluated arguments into registers of the parameter types. -/
def bindArgs : List Register → List Scalar → Lower (List Register × List Op)
  | src :: sources, ty :: types => do
    Lower.markRead src
    let dest ← Lower.define ty
    Lower.markRead dest
    let (bound, ops) ← bindArgs sources types
    return (dest :: bound, .copy dest src :: ops)
  | _, _ => return ([], [])

/-- The register for the result of a call: written if the result is kept, only
reserved if it is dropped, and none if there is no result. -/
def resultRegister (returnType : Option Scalar) (keep : Bool) : Lower (Option Register) :=
  match returnType with
  | none => return none
  | some ty => do
    if keep then
      return some (← Lower.define ty)
    else
      let _ ← Lower.reserve ty
      return none

/-- A call whose arguments `lowerArgs` evaluates. -/
def lowerCall (scope : Scope) (callee : Callee) (arity : Nat)
    (lowerArgs : Lower (List Register × List Op)) (keep : Bool) :
    Lower (Option Register × List Op) := do
  let (symbol, signature) ← scope.lowerCallee callee
  if arity ≠ signature.params.length then
    Lower.refuse (.arityMismatch scope.title callee.text signature.params.length arity)
  else
    let (sources, evaluation) ← lowerArgs
    let (bound, binding) ← bindArgs sources signature.params
    let dest ← resultRegister signature.returnType keep
    return (dest, evaluation ++ binding ++ [.call dest symbol bound])

mutual

/-- Lowers an expression; the register holds its value after the operations. -/
def lowerExpr (scope : Scope) : Expr → Lower (Register × List Op)
  | .literal lit => scope.lowerLiteral lit.value lit.ty
  | .var name => do
    let ty ← Lower.readLocal name
    let dest ← Lower.define ty
    return (dest, [.loadLocal dest name])
  | .constant name =>
    match scope.shared.constant? name with
    | some constant => scope.lowerLiteral constant.value constant.ty
    | none => Lower.refuse (.unknownConstant scope.title name)
  | .binary op lhs rhs => do
    let (left, leftOps) ← lowerExpr scope lhs
    let (right, rightOps) ← lowerExpr scope rhs
    Lower.markRead left
    Lower.markRead right
    let ty ← if op.isComparison then pure .u8 else Lower.typeOf left
    let dest ← Lower.define ty
    return (dest, leftOps ++ rightOps ++ [.binary dest op left right])
  | .cast value ty => do
    let (src, ops) ← lowerExpr scope value
    Lower.markRead src
    let dest ← Lower.define ty
    return (dest, ops ++ [.cast dest src])
  | .call callee args => do
    let (dest, ops) ← scope.lowerCall callee args.length (lowerArgs scope args) true
    match dest with
    | some dest => return (dest, ops)
    | none =>
      Lower.refuse (.internal ("in " ++ scope.title ++ ": " ++ callee.text
        ++ " returns nothing but its value is used"))

/-- Lowers arguments from left to right. -/
def lowerArgs (scope : Scope) : List Expr → Lower (List Register × List Op)
  | [] => return ([], [])
  | arg :: rest => do
    let (register, ops) ← lowerExpr scope arg
    let (registers, restOps) ← lowerArgs scope rest
    return (register :: registers, ops ++ restOps)

end

end Scope

end ScalarC
