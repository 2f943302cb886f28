import ScalarC.Lowering.Expr

/-!
# Lowering of statements

Statements become operations, and lowering follows two facts along the way:
whether control can continue behind a statement, and which locals are assigned on
every path. Statements behind a return are left out.
-/

namespace ScalarC

/-- Whether control can continue behind a statement. -/
inductive Flow where
  | continues
  | returns
deriving DecidableEq, Repr

namespace Flow

/-- Control passes a branch if it passes one of the arms. -/
def join : Flow → Flow → Flow
  | returns, returns => returns
  | _, _ => continues

/-- The slots assigned behind a branch: those of both arms, where an arm that
returns does not count. -/
def joinAssigned (thenFlow elseFlow : Flow) (afterThen afterElse : SlotSet) : SlotSet :=
  match thenFlow, elseFlow with
  | returns, _ => afterElse
  | _, returns => afterThen
  | _, _ => SlotSet.inter afterThen afterElse

end Flow

namespace Scope

/-- Stores a register into a local. -/
def lowerStore (name : String) (src : Register) : Lower (List Op) := do
  Lower.assignLocal name
  Lower.markRead src
  return [.storeLocal name src]

/-- A string constant holds at most 65535 bytes. -/
def lowerText (scope : Scope) (text : String) : Lower (List Op) := do
  if 65535 < text.utf8ByteSize then
    Lower.refuse (.outOfRange scope.title text.utf8ByteSize .u16)
  else
    let index ← Lower.addString text
    return [.print .string (.string index)]

def lowerPrint (scope : Scope) : Print → Lower (List Op)
  | .value e => do
    let (register, ops) ← scope.lowerExpr e
    let ty ← Lower.typeOf register
    match Routine.printer? ty with
    | some routine =>
      Lower.markRead register
      return ops ++ [.print routine (.register register)]
    | none => Lower.refuse (.unprintable scope.title ty)
  | .char e => do
    let (register, ops) ← scope.lowerExpr e
    Lower.markRead register
    return ops ++ [.print .char (.register register)]
  | .newline => return [.print .newline .nothing]
  | .text s => scope.lowerText s

def lowerReturn (scope : Scope) (value : Option Expr) : Lower (List Op) :=
  match value, scope.function.returnType with
  | some e, some _ => do
    let (register, ops) ← scope.lowerExpr e
    Lower.markRead register
    return ops ++ [.ret (some register)]
  | none, none => return [.ret none]
  | none, some _ => Lower.refuse (.missingReturn scope.title)
  | some _, none =>
    Lower.refuse (.internal (scope.title ++ " returns a value but declares no return type"))

/-- Reserves a register for a declared local, and stores its first value. -/
def lowerDeclare (scope : Scope) (name : String) (ty : Scalar) (init : Option Expr) :
    Lower (List Op) := do
  Lower.declareLocal name ty
  let _ ← Lower.reserve ty
  match init with
  | none => return []
  | some e =>
    let (register, ops) ← scope.lowerExpr e
    return ops ++ (← lowerStore name register)

def lowerAssign (scope : Scope) (name : String) (value : Expr) : Lower (List Op) := do
  let _ ← Lower.lift ((← get).locals.typeOf name)
  let (register, ops) ← scope.lowerExpr value
  return ops ++ (← lowerStore name register)

/-- An expression for its effects: the result of a call is not even kept. -/
def lowerEval (scope : Scope) (e : Expr) : Lower (List Op) := do
  match e with
  | .call callee args =>
    let (_, ops) ← scope.lowerCall callee args.length (scope.lowerArgs args) false
    return ops
  | e =>
    let (_, ops) ← scope.lowerExpr e
    return ops

mutual

def lowerStatement (scope : Scope) : Statement → Lower (Flow × List Op)
  | .declare name ty init => return (.continues, ← scope.lowerDeclare name ty init)
  | .assign name value => return (.continues, ← scope.lowerAssign name value)
  | .eval e => return (.continues, ← scope.lowerEval e)
  | .ret value => return (.returns, ← scope.lowerReturn value)
  | .print what => return (.continues, ← scope.lowerPrint what)
  | .branch condition thenBlock elseBlock => do
    let (cond, condOps) ← scope.lowerExpr condition
    Lower.markRead cond
    let entry ← Lower.assigned
    let (thenFlow, thenOps) ← lowerBlock scope thenBlock
    let afterThen ← Lower.assigned
    Lower.restoreAssigned entry
    let (elseFlow, elseOps) ← lowerBlock scope elseBlock
    let afterElse ← Lower.assigned
    Lower.restoreAssigned (Flow.joinAssigned thenFlow elseFlow afterThen afterElse)
    return (thenFlow.join elseFlow, condOps ++ [.branch cond thenOps elseOps])
  | .loop condition body => do
    let entry ← Lower.assigned
    let (cond, condOps) ← scope.lowerExpr condition
    Lower.markRead cond
    let (_, bodyOps) ← lowerBlock scope body
    Lower.restoreAssigned entry
    return (.continues, [.loop condOps cond bodyOps])

/-- Lowers statements up to the first behind which control cannot continue. -/
def lowerBlock (scope : Scope) : List Statement → Lower (Flow × List Op)
  | [] => return (.continues, [])
  | statement :: rest => do
    let (flow, ops) ← lowerStatement scope statement
    match flow with
    | .returns => return (.returns, ops)
    | .continues =>
      let (restFlow, restOps) ← lowerBlock scope rest
      return (restFlow, ops ++ restOps)

end

end Scope

end ScalarC
