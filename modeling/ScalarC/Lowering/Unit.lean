import ScalarC.Lowering.Statement

/-!
# Lowering of functions and units

All functions of a unit are registered first, so that calls may name functions
declared later; then each is lowered by itself. At the end the names of locals
and string constants are checked against the symbols, and the entry point is
looked up.
-/

namespace ScalarC

/-- A lowered function with the aliases and warnings it gave rise to. -/
structure FunctionLowering where
  function : LoweredFunction
  aliases : NameTable FunctionId
  diagnostics : List Diagnostic

namespace Scope

/-- Declares the parameters and reserves a register for each. -/
def lowerParams : List Parameter → Lower Unit
  | [] => return ()
  | param :: rest => do
    Lower.declareParam param.name param.ty
    let _ ← Lower.reserve param.ty
    lowerParams rest

/-- The whole body; a function that returns a value has to do so on every path. -/
def lowerBody (scope : Scope) : Lower (List Op) := do
  lowerParams scope.function.params
  let (flow, ops) ← scope.lowerBlock scope.function.body
  if scope.function.returnType.isSome && flow != .returns then
    Lower.refuse (.missingReturn scope.title)
  else
    return ops

end Scope

namespace Shared

/-- Lowers one function, whether or not it is marked external. -/
def lowerFunction (shared : Shared) (function : SourceFunction) :
    Except Abort FunctionLowering :=
  match shared.registry.resolve function.id with
  | .error cause => .error (.refused cause)
  | .ok symbol => do
    let scope : Scope := { shared, function }
    let (ops, session) ← scope.lowerBody function.session
    return {
      function :=
        { name := function.name
          symbol
          params := function.params
          returnType := function.returnType
          isExternal := false
          registers := session.registers.rows
          locals := session.locals.slots
          strings := session.strings
          ops }
      aliases := session.aliases
      diagnostics := session.diagnostics }

/-- A function that is only declared here. -/
def lowerExternal (shared : Shared) (function : SourceFunction) :
    Except Abort FunctionLowering :=
  match shared.registry.resolve function.id with
  | .error cause => .error (.refused cause)
  | .ok symbol =>
    .ok {
      function :=
        { name := function.name
          symbol
          params := function.params
          returnType := function.returnType
          isExternal := true }
      aliases := .empty
      diagnostics := [] }

/-- Lowers the functions of a unit in order. -/
def lowerFunctions (shared : Shared) : List SourceFunction → Except Abort (List FunctionLowering)
  | [] => .ok []
  | function :: rest => do
    let first ←
      if function.isExternal then shared.lowerExternal function else shared.lowerFunction function
    return first :: (← lowerFunctions shared rest)

/-- Registers the functions of a unit in order, each after a check of its
parameter names. -/
def registerAll (shared : Shared) : List SourceFunction → Except CompileError Shared
  | [] => .ok shared
  | function :: rest => do
    if let some param := function.params.find? fun p => !Name.isIdentifier p.name then
      throw (.invalidIdentifier param.name)
    let (symbol, registry) ← shared.registry.register function.id
    let signature : Signature := ⟨symbol, function.paramTypes, function.returnType⟩
    registerAll
      { shared with registry, signatures := (function.id, signature) :: shared.signatures } rest

/-- Adds the constants of a unit in order; each name may be used once. -/
def addConstants (shared : Shared) : List Constant → Except CompileError Shared
  | [] => .ok shared
  | constant :: rest =>
    if (shared.constant? constant.name).isSome then
      .error (.invalidIdentifier (constant.name ++ " (constant defined twice)"))
    else
      addConstants { shared with constants := constant :: shared.constants } rest

/-- What the functions of a unit share: all its symbols and constants. -/
def ofUnit (unit : SourceUnit) (settings : Settings) : Except CompileError Shared := do
  let registry ← Registry.ofSettings settings
  let shared ← registerAll { settings, registry, signatures := [], constants := [] } unit.functions
  shared.addConstants unit.constants

/-- Adds the aliases of one function, each with the signature of its target. -/
def addAliases (shared : Shared) :
    List (Symbol × FunctionId) → NameTable Signature → Except CompileError (NameTable Signature)
  | [], aliases => .ok aliases
  | (spelling, target) :: rest, aliases =>
    match shared.signature? target with
    | some signature =>
      addAliases shared rest (aliases.insert spelling { signature with symbol := spelling })
    | none => .error (.unknownFunction target.text)

/-- The entry point that the settings name, if the unit defines one. -/
def entryPoint (shared : Shared) (unit : SourceUnit) :
    Except CompileError (Option EntryPoint) :=
  match shared.settings.entry with
  | none => .ok none
  | some name =>
    match (unit.functionsNamed name).filter (!·.isExternal) with
    | [] => .ok none
    | [function] =>
      if function.params.isEmpty then do
        let symbol ← shared.registry.resolve function.id
        return some ⟨symbol, function.returnType⟩
      else
        .error (.invalidEntry ("'" ++ name ++ "' takes " ++ toString function.params.length
          ++ " parameters, expected none"))
    | candidates =>
      .error (.invalidEntry (toString candidates.length ++ " functions are named '" ++ name ++ "'"))

end Shared

namespace LoweredFunction

/-- The C names of the locals and string constants. -/
def ownNames (function : LoweredFunction) : List String :=
  function.locals.map (Name.ofLocal ·.name)
    ++ (List.range function.strings.length).map (Name.ofString function.symbol)

/-- The functions may not use a symbol of the unit as the name of a local or of a
string constant. -/
def checkNames (symbols : List Symbol) : List LoweredFunction → Except CompileError Unit
  | [] => .ok ()
  | function :: rest =>
    match function.ownNames.find? (symbols.contains ·) with
    | some name =>
      .error (.symbolCollision name ("function " ++ name)
        ("a local or string constant of " ++ function.symbol))
    | none => checkNames symbols rest

end LoweredFunction

namespace SourceUnit

/-- Lowers a unit. -/
def lower (unit : SourceUnit) (settings : Settings) : Except Abort LoweredUnit := do
  let shared ← (Shared.ofUnit unit settings).mapError .refused
  let lowered ← shared.lowerFunctions unit.functions
  let aliases ←
    (shared.addAliases (lowered.flatMap (·.aliases.entries)) .empty).mapError .refused
  let functions := lowered.map (·.function)
  (LoweredFunction.checkNames (functions.map (·.symbol)) functions).mapError .refused
  let entry ← (shared.entryPoint unit).mapError .refused
  return {
    name := unit.name
    functions
    aliases
    entry
    diagnostics := lowered.flatMap (·.diagnostics) }

end SourceUnit

end ScalarC
