import ScalarC.CText.Expr

/-!
# Arithmetic at the declared width

C computes in 32 bits, or in 64 for fixed-point products, quotients and
conversions, and the result is narrowed to the destination. Narrowing to `u24`
masks 24 bits, and narrowing to `i24` also extends the sign, so that a register
always holds a value in the range of its type.
-/

namespace ScalarC

namespace CExpr

/-- Converts a value to a type, wrapping to its width. -/
def narrow (ty : Scalar) (e : CExpr) : CExpr :=
  match ty with
  | .u24 => cast (.scalar .u24) (paren (low24 e))
  | .i24 =>
    cast (.scalar .i24)
      (paren (binary .sub
        (cast .int32 (paren (binary .xor (paren (low24 e)) (hexadecimal 0x800000 true))))
        (hexadecimal 0x800000 false)))
  | ty => cast (.scalar ty) (paren e)
where
  /-- The low 24 bits. -/
  low24 (e : CExpr) : CExpr :=
    binary .and (cast .uint32 (paren e)) (hexadecimal 0xFFFFFF true)

/-- A constant. The least 32-bit word has no plain spelling in C, since its
absolute value is not an `int`; constants above the greatest are unsigned. -/
def literal (value : Int) : CExpr :=
  if value = -2147483648 then
    paren (binary .sub (negate (decimal 2147483647 false)) (decimal 1 false))
  else if 2147483647 < value then
    decimal value.toNat true
  else if value < 0 then
    negate (decimal (-value).toNat false)
  else
    decimal value.toNat false

/-- An operand in 32 bits, with the sign of its type. -/
def ordered (ty : Scalar) (operand : CExpr) : CExpr :=
  cast (if ty.isSigned then .int32 else .uint32) operand

/-- One, scaled to the binary point that `shift` counts. -/
def scaledOne (shift : CExpr) : CExpr :=
  paren (binary .shl (cast .int64 (decimal 1 false)) shift)

/-- A shift count, reduced to the word size. -/
def shiftCount (operand : CExpr) : CExpr :=
  paren (binary .and (cast .uint32 operand) (decimal 31 true))

/-- The product of two fixed-point operands. -/
def fixedProduct (ty : Scalar) (lhs rhs : CExpr) : CExpr :=
  binary .div (paren (binary .mul (cast .int64 lhs) (cast .int64 rhs)))
    (scaledOne (name ty.shiftName))

/-- The quotient of two fixed-point operands. -/
def fixedQuotient (ty : Scalar) (lhs rhs : CExpr) : CExpr :=
  binary .div (paren (binary .mul (cast .int64 lhs) (scaledOne (name ty.shiftName))))
    (cast .int64 rhs)

/-- The value of `lhs op rhs` for operands of one type; `result` is the type of
the destination, `u8` for comparisons. -/
def arithmetic (op : Operator) (operand result : Scalar) (lhs rhs : CExpr) : CExpr :=
  match op with
  | .mul =>
    if operand.isFixedPoint then narrow result (fixedProduct operand lhs rhs)
    else narrow result (binary .mul (cast .uint32 lhs) (cast .uint32 rhs))
  | .div =>
    if operand.isFixedPoint then narrow result (fixedQuotient operand lhs rhs)
    else narrow result (binary .div (ordered operand lhs) (ordered operand rhs))
  | .rem => narrow result (binary .rem (ordered operand lhs) (ordered operand rhs))
  | .add | .sub | .and | .or | .xor =>
    narrow result (binary op (cast .uint32 lhs) (cast .uint32 rhs))
  | .shl => narrow result (binary .shl (cast .uint32 lhs) (shiftCount rhs))
  | .shr => narrow result (binary .shr (ordered operand lhs) (shiftCount rhs))
  | .eq | .ne | .lt | .le | .gt | .ge =>
    cast (.scalar .u8) (paren (binary op (ordered operand lhs) (ordered operand rhs)))

/-- The value of a conversion. Dropping fraction bits truncates toward zero. -/
def convert (source target : Scalar) (e : CExpr) : CExpr :=
  if source = target then e
  else
    match source.fractionBits?, target.fractionBits? with
    | none, none => narrow target (ordered source e)
    | none, some _ =>
      narrow target (binary .mul (cast .int64 e) (scaledOne (name target.shiftName)))
    | some _, none =>
      narrow target (binary .div (cast .int64 e) (scaledOne (name source.shiftName)))
    | some s, some t =>
      if s ≤ t then
        narrow target (binary .mul (cast .int64 e) (scaledOne
          (paren (binary .sub (name target.shiftName) (name source.shiftName)))))
      else
        narrow target (binary .div (cast .int64 e) (scaledOne
          (paren (binary .sub (name source.shiftName) (name target.shiftName)))))

end CExpr

end ScalarC
