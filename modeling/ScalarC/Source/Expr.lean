import ScalarC.Scalar
import ScalarC.Source.Operator

/-!
# Source expressions

Expressions arrive type-checked: literals carry their type, and a fixed-point
literal holds its raw value. A call names its target by the full identity of a
function, or by a symbol that the front end spelled itself.
-/

namespace ScalarC

/-- The identity of a function: overloads of one name differ in their parameter
types. -/
structure FunctionId where
  /-- Directory of the module; empty when there is none. -/
  path : String
  moduleName : String
  name : String
  paramTypes : List Scalar
deriving DecidableEq, Repr, Ord

namespace FunctionId

/-- `path::module::name(u8, u8)`, without the path when that is empty. -/
def text (id : FunctionId) : String :=
  (if id.path.isEmpty then "" else id.path ++ "::")
  ++ id.moduleName ++ "::" ++ id.name
  ++ "(" ++ ", ".intercalate (id.paramTypes.map Scalar.name) ++ ")"

/-- Identities in increasing order of path, module, name and parameter types. -/
def sort (ids : List FunctionId) : List FunctionId :=
  ids.mergeSort fun a b => (compare a b).isLE

end FunctionId

structure Literal where
  value : Int64
  ty : Scalar
deriving DecidableEq, Repr

namespace Literal

/-- The literal of fixed-point type `ty` for `numerator / denominator`, if there
is one. -/
def ofRatio (numerator denominator : Int64) (ty : Scalar) :
    Except ArithmeticFault (Option Literal) :=
  match ty.fixedPoint? with
  | none => .ok none
  | some format => do
    let raw ← format.rawOfRatio numerator denominator
    return raw.map fun value => ⟨value, ty⟩

end Literal

/-- The target of a call. -/
inductive Callee where
  | function (id : FunctionId)
  | symbol (spelling : String)
deriving DecidableEq, Repr

namespace Callee

def text : Callee → String
  | function id => id.moduleName ++ "::" ++ id.name
  | symbol spelling => spelling

end Callee

inductive Expr where
  | literal (lit : Literal)
  /-- The value of a local or parameter. -/
  | var (name : String)
  /-- The value of a constant of the unit. -/
  | constant (name : String)
  | binary (op : Operator) (lhs rhs : Expr)
  | cast (value : Expr) (ty : Scalar)
  | call (callee : Callee) (args : List Expr)
deriving Repr

namespace Expr

mutual

/-- Fully parenthesised text: `(1:u8 + x)`, `(x as u16)`, `f(x, y)`. -/
def text : Expr → String
  | literal lit => toString lit.value.toInt ++ ":" ++ lit.ty.name
  | var name => name
  | constant name => "const " ++ name
  | binary op lhs rhs => "(" ++ lhs.text ++ " " ++ op.token ++ " " ++ rhs.text ++ ")"
  | cast value ty => "(" ++ value.text ++ " as " ++ ty.name ++ ")"
  | call callee args => callee.text ++ "(" ++ ", ".intercalate (texts args) ++ ")"

def texts : List Expr → List String
  | [] => []
  | e :: rest => e.text :: texts rest

end

end Expr

end ScalarC
