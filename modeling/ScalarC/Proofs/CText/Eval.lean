import ScalarC.CText.Expr
import ScalarC.CText.Preamble
import ScalarC.Proofs.Scalar.Wrap

/-!
# The meaning of C expressions

C99 on a machine with a 32-bit `int` and 64-bit `int64_t`: operands are promoted and
brought to a common type, unsigned arithmetic is modulo the width, and an undefined
operation has no value. Where the standard leaves a choice, a conversion to a signed
type keeps the low bits, and a right shift of a negative number rounds down.

## Main definitions

* `CValue`: a number with a type that represents it.
* `CValue.apply`: the binary operators.
* `CExpr.eval`: the value of an expression, if it has one.
-/

namespace ScalarC

namespace IntType

def int : IntType := { bits := 32, isSigned := true }

def uint : IntType := { bits := 32, isSigned := false }

def int64 : IntType := { bits := 64, isSigned := true }

def uint64 : IntType := { bits := 64, isSigned := false }

/-- The type that two promoted operands are converted to: the wider one, and the
unsigned one among types of one width. -/
def common (s t : IntType) : IntType :=
  if s.bits < t.bits then t
  else if t.bits < s.bits then s
  else if s.isSigned then t else s

/-- The name of an exact-width type in `<stdint.h>`. -/
def stdintName (ty : IntType) : String :=
  (if ty.isSigned then "int" else "uint") ++ toString ty.bits ++ "_t"

end IntType

/-- The typedef of a scalar type names the type that it is stored in. -/
theorem Scalar.container_eq (ty : Scalar) : ty.container = ty.stored.stdintName := by
  cases ty <;> rfl

/-- A number, in a type that represents it. -/
@[ext]
structure CValue where
  ty : IntType
  raw : Int
  inRange : ty.InRange raw

/-- The number converted to a type. -/
def IntType.value (ty : IntType) (n : Int) : CValue :=
  ⟨ty, ty.wrap n, ty.inRange_wrap n⟩

/-- The result of an arithmetic operation. A signed type has to represent it. -/
def IntType.result? (ty : IntType) (n : Int) : Option CValue :=
  if ty.isSigned ∧ ¬ty.InRange n then none else some (ty.value n)

namespace CValue

/-- Types narrower than `int` become `int`. -/
def promote (v : CValue) : CValue :=
  if v.ty.bits < 32 then IntType.int.value v.raw else v

/-- The operator on two numbers of one type, shifts apart. -/
def compute (ty : IntType) (op : Operator) (a b : Int) : Option CValue :=
  match op with
  | .add => ty.result? (a + b)
  | .sub => ty.result? (a - b)
  | .mul => ty.result? (a * b)
  | .div => if b = 0 then none else ty.result? (a.tdiv b)
  | .rem =>
    -- undefined where the quotient is
    if b = 0 ∨ ty.result? (a.tdiv b) = none then none else some (ty.value (a.tmod b))
  | .and => some (ty.value (BitVec.ofInt ty.bits a &&& BitVec.ofInt ty.bits b).toNat)
  | .or => some (ty.value (BitVec.ofInt ty.bits a ||| BitVec.ofInt ty.bits b).toNat)
  | .xor => some (ty.value (BitVec.ofInt ty.bits a ^^^ BitVec.ofInt ty.bits b).toNat)
  | .eq => truth (a = b)
  | .ne => truth (a ≠ b)
  | .lt => truth (a < b)
  | .le => truth (a ≤ b)
  | .gt => truth (b < a)
  | .ge => truth (b ≤ a)
  | .shl | .shr => none
where
  truth (p : Prop) [Decidable p] : Option CValue := some (IntType.int.value (if p then 1 else 0))

/-- A shift of a promoted operand. The count has to be less than the width. -/
def shift (op : Operator) (v : CValue) (count : Int) : Option CValue :=
  if count < 0 ∨ v.ty.bits ≤ count then none
  else if op = .shl then
    if v.ty.isSigned ∧ v.raw < 0 then none else v.ty.result? (v.raw * twoPow count.toNat)
  else some (v.ty.value (v.raw / twoPow count.toNat))

def apply (op : Operator) (v w : CValue) : Option CValue :=
  if op.isShift then shift op v.promote w.promote.raw
  else
    let ty := v.promote.ty.common w.promote.ty
    compute ty op (ty.wrap v.promote.raw) (ty.wrap w.promote.raw)

end CValue

/-- The type that a typedef or type name stands for. -/
def CType.meaning : CType → IntType
  | scalar ty => ty.stored
  | uint32 => .uint
  | int32 => .int
  | int64 => .int64

/-- What a shift macro of the preamble is replaced by. -/
def shiftMacro? (name : String) : Option Nat :=
  (Preamble.fixedTypes.find? (·.shiftName == name)).bind (·.fractionBits?)

namespace CExpr

/-- A constant has the first of the types that represents it. -/
def constant? (types : List IntType) (n : Nat) : Option CValue :=
  (types.find? fun ty => ty.InRange n).map (·.value n)

def decimalTypes (isUnsigned : Bool) : List IntType :=
  if isUnsigned then [.uint, .uint64] else [.int, .int64]

def hexadecimalTypes (isUnsigned : Bool) : List IntType :=
  if isUnsigned then [.uint, .uint64] else [.int, .uint, .int64, .uint64]

/-- The value of an expression over variables, or `none` where it is undefined. -/
def eval (vars : String → Option CValue) : CExpr → Option CValue
  | name s =>
    match shiftMacro? s with
    | some bits => constant? (decimalTypes false) bits
    | none => vars s
  | decimal n isUnsigned => constant? (decimalTypes isUnsigned) n
  | hexadecimal n isUnsigned => constant? (hexadecimalTypes isUnsigned) n
  | negate e => do
    let v ← e.eval vars
    v.promote.ty.result? (-v.promote.raw)
  | cast ty e => do
    let v ← e.eval vars
    some (ty.meaning.value v.raw)
  | binary op lhs rhs => do
    let v ← lhs.eval vars
    let w ← rhs.eval vars
    v.apply op w
  | paren e => e.eval vars

end CExpr

end ScalarC
