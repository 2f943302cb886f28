import ScalarC.Diagnostic
import ScalarC.Source.Statement

/-!
# Source units

A unit is what becomes one C file: functions in declaration order, and the
constants that they may read. Functions are built by adding parameters and
statements at the end.
-/

namespace ScalarC

structure Parameter where
  name : String
  ty : Scalar
deriving DecidableEq, Repr

/-- A function as the front end hands it over. -/
structure SourceFunction where
  path : String
  moduleName : String
  name : String
  params : List Parameter := []
  /-- `none` for a function that returns nothing. -/
  returnType : Option Scalar := none
  body : List Statement := []
  /-- Declared here and defined in another unit. -/
  isExternal : Bool := false
  position : Option Position := none
deriving Repr

namespace SourceFunction

def paramTypes (function : SourceFunction) : List Scalar :=
  function.params.map (·.ty)

def id (function : SourceFunction) : FunctionId :=
  ⟨function.path, function.moduleName, function.name, function.paramTypes⟩

/-- `module::name`, which is how messages call the function. -/
def title (function : SourceFunction) : String :=
  function.moduleName ++ "::" ++ function.name

def addParam (function : SourceFunction) (name : String) (ty : Scalar) : SourceFunction :=
  { function with params := function.params ++ [⟨name, ty⟩] }

def returning (function : SourceFunction) (ty : Scalar) : SourceFunction :=
  { function with returnType := some ty }

def external (function : SourceFunction) : SourceFunction :=
  { function with isExternal := true }

def addStatement (function : SourceFunction) (statement : Statement) : SourceFunction :=
  { function with body := function.body ++ [statement] }

end SourceFunction

/-- A named value that every function of a unit may read. -/
structure Constant where
  name : String
  ty : Scalar
  value : Int64
deriving DecidableEq, Repr

structure SourceUnit where
  name : String
  functions : List SourceFunction := []
  constants : List Constant := []
deriving Repr

namespace SourceUnit

/-- The functions with a source name, in declaration order. -/
def functionsNamed (unit : SourceUnit) (name : String) : List SourceFunction :=
  unit.functions.filter (·.name == name)

def function? (unit : SourceUnit) (id : FunctionId) : Option SourceFunction :=
  unit.functions.find? (·.id == id)

def constant? (unit : SourceUnit) (name : String) : Option Constant :=
  unit.constants.find? (·.name == name)

end SourceUnit

end ScalarC
