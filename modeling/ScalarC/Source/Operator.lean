/-!
# Binary operators

The operators of source expressions. Each is written with the C token of the
same operation.
-/

namespace ScalarC

inductive Operator where
  | add
  | sub
  | mul
  | div
  | rem
  | and
  | or
  | xor
  | shl
  | shr
  | eq
  | ne
  | lt
  | le
  | gt
  | ge
deriving DecidableEq, Repr

namespace Operator

def all : List Operator :=
  [add, sub, mul, div, rem, and, or, xor, shl, shr, eq, ne, lt, le, gt, ge]

theorem mem_all (op : Operator) : op ∈ all := by
  cases op <;> decide

/-- The C token of the operator. -/
def token : Operator → String
  | add => "+"
  | sub => "-"
  | mul => "*"
  | div => "/"
  | rem => "%"
  | and => "&"
  | or => "|"
  | xor => "^"
  | shl => "<<"
  | shr => ">>"
  | eq => "=="
  | ne => "!="
  | lt => "<"
  | le => "<="
  | gt => ">"
  | ge => ">="

/-- Comparisons yield zero or one as a `u8`, whatever they compare. -/
def isComparison : Operator → Bool
  | eq | ne | lt | le | gt | ge => true
  | _ => false

def isShift : Operator → Bool
  | shl | shr => true
  | _ => false

/-- The name of the operator in documents. -/
def name : Operator → String
  | add => "add"
  | sub => "sub"
  | mul => "mul"
  | div => "div"
  | rem => "rem"
  | and => "and"
  | or => "or"
  | xor => "xor"
  | shl => "shl"
  | shr => "shr"
  | eq => "eq"
  | ne => "ne"
  | lt => "lt"
  | le => "le"
  | gt => "gt"
  | ge => "ge"

/-- The operator with the given name. -/
def ofName? (text : String) : Option Operator :=
  all.find? fun op => op.name == text

theorem ofName?_name (op : Operator) : ofName? op.name = some op := by
  cases op <;> decide

end Operator

end ScalarC
