import ScalarC.Source.Expr

/-!
# Source statements

Function bodies are lists of statements; branches and loops own nested lists.
-/

namespace ScalarC

/-- What a print statement writes. -/
inductive Print where
  /-- A number, by the routine for its type. -/
  | value (e : Expr)
  /-- A character code. -/
  | char (e : Expr)
  | newline
  /-- A constant text. -/
  | text (s : String)
deriving Repr

inductive Statement where
  /-- Declares a local, with or without a first value. -/
  | declare (name : String) (ty : Scalar) (init : Option Expr)
  | assign (name : String) (value : Expr)
  /-- Evaluates an expression and drops its value. -/
  | eval (e : Expr)
  | ret (value : Option Expr)
  | branch (condition : Expr) (thenBlock elseBlock : List Statement)
  /-- Runs the body as long as the condition, tested first, is not zero. -/
  | loop (condition : Expr) (body : List Statement)
  | print (what : Print)
deriving Repr

namespace Statement

/-- Only a return ends a block by itself. -/
def isTerminator : Statement → Bool
  | ret _ => true
  | _ => false

end Statement

end ScalarC
