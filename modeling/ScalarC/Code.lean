import ScalarC.LocalTable
import ScalarC.Name.Registry
import ScalarC.Register
import ScalarC.Source.SourceUnit

/-!
# Register code

The form between source and C: every expression is flattened into operations on
virtual registers, while branches and loops stay nested. A lowered function
carries its tables, and a lowered unit the functions with the names they need.
-/

namespace ScalarC

/-- What a print operation hands to its routine. -/
inductive PrintArg where
  | nothing
  | register (source : Register)
  /-- A string constant of the function, by number. -/
  | string (index : Nat)
deriving DecidableEq, Repr

inductive Op where
  /-- Loads a value that is in the range of the register's type. -/
  | loadConst (dest : Register) (value : Int)
  | loadLocal (dest : Register) (name : String)
  /-- Copies, converting to the destination's type. -/
  | copy (dest src : Register)
  /-- Stores into a local, converting to its type. -/
  | storeLocal (name : String) (src : Register)
  | binary (dest : Register) (op : Operator) (lhs rhs : Register)
  | cast (dest src : Register)
  /-- A call; without a destination the result, if any, is dropped. -/
  | call (dest : Option Register) (callee : Symbol) (args : List Register)
  | print (routine : Routine) (arg : PrintArg)
  | ret (value : Option Register)
  | branch (cond : Register) (thenOps elseOps : List Op)
  /-- Runs `condOps`, leaves if `cond` is zero, runs the body, and repeats. -/
  | loop (condOps : List Op) (cond : Register) (body : List Op)
deriving Repr

/-- A function in register form. -/
structure LoweredFunction where
  /-- Source name, for comments. -/
  name : String
  symbol : Symbol
  params : List Parameter
  returnType : Option Scalar
  /-- Defined in another unit: only a prototype is written. -/
  isExternal : Bool
  registers : List RegisterRow := []
  /-- Parameters first, then locals as declared. -/
  locals : List LocalSlot := []
  /-- The texts that print operations refer to. -/
  strings : List String := []
  ops : List Op := []
deriving Repr

namespace LoweredFunction

def registerType? (function : LoweredFunction) (register : Register) : Option Scalar :=
  (function.registers.find? (·.register == register)).map (·.ty)

def localType? (function : LoweredFunction) (name : String) : Option Scalar :=
  (function.locals.find? (·.name == name)).map (·.ty)

end LoweredFunction

/-- How a function is called. -/
structure Signature where
  symbol : Symbol
  params : List Scalar
  returnType : Option Scalar
deriving DecidableEq, Repr

/-- The function that the C `main` calls. -/
structure EntryPoint where
  symbol : Symbol
  returnType : Option Scalar
deriving DecidableEq, Repr

/-- A unit in register form. -/
structure LoweredUnit where
  name : String
  functions : List LoweredFunction
  /-- Spellings at calls that need a prototype of their own. -/
  aliases : NameTable Signature
  entry : Option EntryPoint
  diagnostics : List Diagnostic

end ScalarC
