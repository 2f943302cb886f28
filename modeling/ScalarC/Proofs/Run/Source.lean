import ScalarC.Proofs.Run

/-!
# Runs of source functions

Operands and arguments are evaluated from left to right, literals and constants are
reduced to the range of their type, and whatever is stored or passed is converted to
the type of its target. A local has one type throughout its function and keeps its
number when it is declared again without a first value. A number is only held once
it was stored: reading a local before that is stuck.

Calls are made through `invoke`, which `SourceUnit.invoke` provides with less fuel.
-/

namespace ScalarC

mutual

/-- Whether control never passes the statement. -/
def Statement.ends : Statement → Bool
  | .ret _ => true
  | .branch _ thenBlock elseBlock => blockEnds thenBlock && blockEnds elseBlock
  | _ => false

/-- Whether control never reaches the end of the block. -/
def blockEnds : List Statement → Bool
  | [] => false
  | statement :: rest => statement.ends || blockEnds rest

end

mutual

/-- The locals that a statement declares, in order. -/
def Statement.declarations : Statement → List Parameter
  | .declare name ty _ => [⟨name, ty⟩]
  | .branch _ thenBlock elseBlock => blockDeclarations thenBlock ++ blockDeclarations elseBlock
  | .loop _ body => blockDeclarations body
  | _ => []

/-- The locals that a block declares where control can get. -/
def blockDeclarations : List Statement → List Parameter
  | [] => []
  | statement :: rest =>
    statement.declarations ++ if statement.ends then [] else blockDeclarations rest

end

/-- The type under which a name is declared first. -/
def declaredType? (declarations : List Parameter) (name : String) : Option Scalar :=
  (declarations.find? (·.name == name)).map (·.ty)

theorem declaredType?_append (first rest : List Parameter) (name : String) :
    declaredType? (first ++ rest) name
      = (declaredType? first name).or (declaredType? rest name) := by
  simp only [declaredType?, List.find?_append]
  cases first.find? (·.name == name) <;> rfl

namespace SourceFunction

/-- The type of a parameter or local of the function. -/
def localType? (function : SourceFunction) (name : String) : Option Scalar :=
  declaredType? (function.params ++ blockDeclarations function.body) name

/-- The symbol of the function under the given settings. -/
def symbol? (function : SourceFunction) (settings : Settings) : Option Symbol :=
  (Registry.symbolOf { spelling := settings.spelling, delimiter := settings.delimiter }
    function.id).toOption

end SourceFunction

namespace SourceUnit

/-- The function that a call names, by its identity or by its symbol. -/
def callee? (unit : SourceUnit) (settings : Settings) : Callee → Option SourceFunction
  | .function id => unit.function? id
  | .symbol spelling => unit.functions.find? (·.symbol? settings == some spelling)

end SourceUnit

/-- The numbers that locals hold. -/
abbrev Store := String → Option Int

/-- The parameters with their arguments, if there is one for each. -/
def bindParams : List Parameter → List Int → Option (List (String × Int))
  | [], [] => some []
  | param :: params, arg :: args => (bindParams params args).map ((param.name, arg) :: ·)
  | _, _ => none

namespace Store

def ofBindings (bindings : List (String × Int)) : Store :=
  fun name => (bindings.find? (·.1 == name)).map (·.2)

def set (store : Store) (name : String) (raw : Int) : Store :=
  fun other => if other = name then some raw else store other

end Store

/-- What the body of a source function runs in. -/
structure Activation where
  meaning : Meaning
  unit : SourceUnit
  settings : Settings
  function : SourceFunction
  /-- Calls a function of the unit with converted arguments. -/
  invoke : SourceFunction → List Int → Run (Option Int)

namespace Activation

/-- Converts evaluated arguments to the parameter types, and calls. -/
def call (act : Activation) (target : SourceFunction) (values : List Value) :
    Run (Option Int) := do
  let args ← Run.ofOption (act.meaning.convertAll values target.paramTypes)
  act.invoke target args

mutual

def evalExpr (act : Activation) (store : Store) : Expr → Run Value
  | .literal lit => return ⟨lit.ty, lit.ty.wrap lit.value.toInt⟩
  | .var name => do
    let ty ← Run.ofOption (act.function.localType? name)
    let raw ← Run.ofOption (store name)
    return ⟨ty, raw⟩
  | .constant name => do
    let constant ← Run.ofOption (act.unit.constant? name)
    return ⟨constant.ty, constant.ty.wrap constant.value.toInt⟩
  | .binary op lhs rhs => do
    let left ← evalExpr act store lhs
    let right ← evalExpr act store rhs
    let raw ← Run.ofOption (act.meaning.binary op left right)
    return ⟨if op.isComparison then .u8 else left.ty, raw⟩
  | .cast e ty => do
    let value ← evalExpr act store e
    let raw ← Run.ofOption (act.meaning.convert value ty)
    return ⟨ty, raw⟩
  | .call callee args => do
    let target ← Run.ofOption (act.unit.callee? act.settings callee)
    let values ← evalArgs act store args
    let result ← act.call target values
    let raw ← Run.ofOption result
    let ty ← Run.ofOption target.returnType
    return ⟨ty, raw⟩

def evalArgs (act : Activation) (store : Store) : List Expr → Run (List Value)
  | [] => return []
  | e :: rest => do
    let value ← evalExpr act store e
    let values ← evalArgs act store rest
    return value :: values

end

/-- Evaluates an expression for its effects; the result of a call need not exist. -/
def dropExpr (act : Activation) (store : Store) (e : Expr) : Run Unit := do
  match e with
  | .call callee args =>
    let target ← Run.ofOption (act.unit.callee? act.settings callee)
    let values ← act.evalArgs store args
    let _ ← act.call target values
  | e =>
    let _ ← act.evalExpr store e

/-- Stores a value, converted to the type of the local. -/
def assign (act : Activation) (store : Store) (name : String) (ty : Scalar) (value : Value) :
    Run Store := do
  let raw ← Run.ofOption (act.meaning.convert value ty)
  return store.set name raw

def print (act : Activation) (store : Store) : Print → Run Unit
  | .value e => do
    let value ← act.evalExpr store e
    let routine ← Run.ofOption (Routine.printer? value.ty)
    Run.emit (.print routine (.value value))
  | .char e => do
    let value ← act.evalExpr store e
    Run.emit (.print .char (.value value))
  | .newline => Run.emit (.print .newline .nothing)
  | .text s => Run.emit (.print .string (.text s))

/-- A statement without control flow leaves another store. -/
def execSimple (act : Activation) (store : Store) : Statement → Run Store
  | .declare name ty (some e) => do
    let value ← act.evalExpr store e
    act.assign store name ty value
  | .assign name e => do
    let ty ← Run.ofOption (act.function.localType? name)
    let value ← act.evalExpr store e
    act.assign store name ty value
  | .eval e => do
    act.dropExpr store e
    return store
  | .print what => do
    act.print store what
    return store
  | _ => return store

/-- The number that the function hands back. -/
def execReturn (act : Activation) (store : Store) : Option Expr → Run (Option Int)
  | none => return none
  | some e => do
    let value ← act.evalExpr store e
    let ty ← Run.ofOption act.function.returnType
    let raw ← Run.ofOption (act.meaning.returned value ty)
    return some raw

mutual

/-- Runs a statement; each loop makes at most `fuel` passes. -/
def execStatement (act : Activation) (fuel : Nat) :
    Statement → Store → Run (Outcome × Store)
  | .ret value, store => do
    let result ← act.execReturn store value
    return (.returned result, store)
  | .branch condition thenBlock elseBlock, store => do
    let value ← act.evalExpr store condition
    if value.raw ≠ 0 then execBlock act fuel thenBlock store
    else execBlock act fuel elseBlock store
  | .loop condition body, store =>
    Run.iterate (fun store => do
      let value ← act.evalExpr store condition
      if value.raw ≠ 0 then
        let (outcome, store) ← execBlock act fuel body store
        return (outcome.pass, store)
      else
        return (.leave, store)) fuel store
  | statement, store => do
    let store ← act.execSimple store statement
    return (.continues, store)

def execBlock (act : Activation) (fuel : Nat) :
    List Statement → Store → Run (Outcome × Store)
  | [], store => return (.continues, store)
  | statement :: rest, store =>
    Run.andThen (execStatement act fuel statement store) (execBlock act fuel rest)

end

/-- Runs the body with the parameters bound. -/
def run (act : Activation) (fuel : Nat) (args : List Int) : Run (Option Int) := do
  let bindings ← Run.ofOption (bindParams act.function.params args)
  let (outcome, _) ← act.execBlock fuel act.function.body (Store.ofBindings bindings)
  match outcome with
  | .continues => return none
  | .returned value => return value

end Activation

namespace SourceUnit

/-- Calls a function: the call is recorded, then an external function does what is
assigned to it, and any other function runs with less fuel. -/
def invoke (unit : SourceUnit) (settings : Settings) (m : Meaning) :
    Nat → SourceFunction → List Int → Run (Option Int)
  | 0, _, _ => Run.ofOption none
  | fuel + 1, function, args => do
    let symbol ← Run.ofOption (function.symbol? settings)
    Run.emit (.call symbol args)
    if function.isExternal then Run.external m symbol args
    else
      Activation.run
        { meaning := m, unit, settings, function, invoke := unit.invoke settings m fuel } fuel args

/-- Runs the body of a function of the unit. -/
def run (unit : SourceUnit) (settings : Settings) (m : Meaning) (fuel : Nat)
    (function : SourceFunction) (args : List Int) : Run (Option Int) :=
  Activation.run { meaning := m, unit, settings, function, invoke := unit.invoke settings m fuel }
    fuel args

/-- The body of the function ends with the given result and events. -/
def Terminates (unit : SourceUnit) (settings : Settings) (m : Meaning)
    (function : SourceFunction) (args : List Int) (result : Option Int) (events : History) :
    Prop :=
  ∃ fuel, unit.run settings m fuel function args [] = some (result, events)

end SourceUnit

end ScalarC
