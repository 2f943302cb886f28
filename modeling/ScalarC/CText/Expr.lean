import ScalarC.Scalar
import ScalarC.Source.Operator

/-!
# C expressions

The C expressions of generated code as syntax trees, and their text. Parentheses
are part of the tree: the text of a tree is written without adding or dropping
any.
-/

namespace ScalarC

/-- A C type that generated code converts to. -/
inductive CType where
  /-- The typedef of a scalar type. -/
  | scalar (ty : Scalar)
  | uint32
  | int32
  | int64
deriving DecidableEq, Repr

namespace CType

def text : CType → String
  | scalar ty => ty.name
  | uint32 => "uint32_t"
  | int32 => "int32_t"
  | int64 => "int64_t"

end CType

inductive CExpr where
  /-- A variable or macro. -/
  | name (text : String)
  /-- A decimal constant, with `u` behind it if unsigned. -/
  | decimal (value : Nat) (isUnsigned : Bool)
  /-- A hexadecimal constant, with `u` behind it if unsigned. -/
  | hexadecimal (value : Nat) (isUnsigned : Bool)
  | negate (operand : CExpr)
  | cast (ty : CType) (operand : CExpr)
  | binary (op : Operator) (lhs rhs : CExpr)
  | paren (inner : CExpr)
deriving DecidableEq, Repr

namespace CExpr

/-- The digits of a number in base sixteen, in capitals. -/
def hexDigits (n : Nat) : String :=
  String.ofList ((Nat.toDigits 16 n).map Char.toUpper)

def suffix (isUnsigned : Bool) : String := if isUnsigned then "u" else ""

/-- The C text of an expression. -/
def text : CExpr → String
  | name s => s
  | decimal value isUnsigned => toString value ++ suffix isUnsigned
  | hexadecimal value isUnsigned => "0x" ++ hexDigits value ++ suffix isUnsigned
  | negate operand => "-" ++ operand.text
  | cast ty operand => "(" ++ ty.text ++ ")" ++ operand.text
  | binary op lhs rhs => lhs.text ++ " " ++ op.token ++ " " ++ rhs.text
  | paren inner => "(" ++ inner.text ++ ")"

end CExpr

end ScalarC
