import ScalarC.Name.Reserved
import ScalarC.Name.Spelling
import ScalarC.NameTable
import ScalarC.Source.Expr

/-!
# Symbols and their registry

The symbol of a function is its sanitised path and module, its name, and one
delimited group per parameter type:

  `/Users/me/dev`, `simple_add`, `add(u8, u8)`  ↦  `_Users_me_dev_simple_add_add$u8$u8`

A `Registry` records which function owns which symbol, and finds it from either
side. It refuses reserved names and symbols that are taken, so distinct functions
have distinct symbols.
-/

namespace ScalarC

/-- The C name of a function. -/
abbrev Symbol := String

/-- The symbols of a unit and their owners. -/
structure Registry where
  spelling : Spelling
  delimiter : Char
  /-- Functions by symbol. -/
  owners : NameTable FunctionId := .empty
  /-- Symbols by function; the first match counts. -/
  symbols : List (FunctionId × Symbol) := []

/-- A call by symbol after look-up. -/
structure ResolvedCall where
  /-- The symbol written at the call. -/
  symbol : Symbol
  /-- The function that is called. -/
  target : FunctionId
  /-- Whether the call spells the symbol in another way than the definition. -/
  isAlias : Bool
deriving DecidableEq, Repr

namespace Registry

/-- An empty registry; the settings are checked first. -/
def ofSettings (settings : Settings) : Except CompileError Registry := do
  settings.check
  return { spelling := settings.spelling, delimiter := settings.delimiter }

/-- The path's part of a symbol; an empty path has none. -/
def pathPart (spelling : Spelling) (path : String) : String :=
  if path.isEmpty then "" else Name.sanitize spelling path ++ "_"

/-- One group of the delimiter and a type name per parameter. -/
def paramPart (delimiter : Char) (types : List Scalar) : String :=
  String.join (types.map fun ty => String.singleton delimiter ++ ty.name)

/-- The symbol of a function. -/
def symbolOf (registry : Registry) (id : FunctionId) : Except CompileError Symbol :=
  if id.moduleName.isEmpty then
    .error (.invalidIdentifier (id.text ++ " (empty module name)"))
  else if !Name.isIdentifier id.name then
    .error (.invalidIdentifier id.name)
  else
    .ok (pathPart registry.spelling id.path
      ++ Name.sanitize registry.spelling id.moduleName ++ "_" ++ id.name
      ++ paramPart registry.delimiter id.paramTypes)

/-- Enters a function and its symbol on both sides. -/
def enter (registry : Registry) (symbol : Symbol) (id : FunctionId) : Registry :=
  { registry with
    owners := registry.owners.insert symbol id
    symbols := (id, symbol) :: registry.symbols }

/-- Records a function under its symbol. The registry after the call comes with the
result, also when the function is refused. -/
def record (registry : Registry) (id : FunctionId) : Except CompileError Symbol × Registry :=
  match registry.symbolOf id with
  | .error cause => (.error cause, registry)
  | .ok symbol =>
    if Name.isReserved symbol then
      (.error (.symbolCollision symbol "the C runtime" id.text), registry)
    else
      match registry.owners.find? symbol with
      | some owner => (.error (.symbolCollision symbol owner.text id.text), registry)
      | none => (.ok symbol, registry.enter symbol id)

/-- Records a function, for callers that stop at the first one that is refused. -/
def register (registry : Registry) (id : FunctionId) :
    Except CompileError (Symbol × Registry) :=
  match registry.record id with
  | (.ok symbol, next) => .ok (symbol, next)
  | (.error cause, _) => .error cause

/-- The symbol under which a function was recorded. -/
def symbol? (registry : Registry) (id : FunctionId) : Option Symbol :=
  (registry.symbols.find? (·.1 == id)).map (·.2)

/-- The symbol of a function that has to be recorded. -/
def resolve (registry : Registry) (id : FunctionId) : Except CompileError Symbol :=
  match registry.symbol? id with
  | some symbol => .ok symbol
  | none => .error (.unknownFunction id.text)

/-- The first owner, in symbol order, whose symbol has the same legacy key. -/
def legacyOwner? (registry : Registry) (spelling : String) : Option FunctionId :=
  let key := Name.legacyKey registry.delimiter spelling
  (registry.owners.entries.find? fun entry =>
    Name.legacyKey registry.delimiter entry.1 == key).map (·.2)

/-- The function that a symbol spelled at a call names. In canonical spelling
that has to be a recorded symbol; in legacy spelling it may differ from one in
the kept characters. -/
def resolveSymbol (registry : Registry) (spelling : String) :
    Except CompileError ResolvedCall :=
  match registry.owners.find? spelling with
  | some target => .ok ⟨spelling, target, false⟩
  | none =>
    match registry.spelling with
    | .canonical =>
      if Name.isSanitized registry.delimiter spelling then
        .error (.unknownFunction spelling)
      else
        .error (.unsanitizedSymbol spelling)
    | .legacy =>
      if Name.isLegacySpelling registry.delimiter spelling then
        match registry.legacyOwner? spelling with
        | some target => .ok ⟨spelling, target, true⟩
        | none => .error (.unknownFunction spelling)
      else
        .error (.unsanitizedSymbol spelling)

def size (registry : Registry) : Nat := registry.owners.size

end Registry

end ScalarC
