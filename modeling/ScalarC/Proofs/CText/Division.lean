import ScalarC.Proofs.CText.Arithmetic

/-!
# Where division is undefined

Integer quotients and all remainders are computed in 32 bits. There the least word
divided by minus one overflows, in three types: `i32`, and the fixed-point types that
fill a 32-bit container. Fixed-point quotients are computed in 64 bits and have no such
pair of operands.
-/

namespace ScalarC

/-- The quotient of the operands is computed in 32 bits, and these do not hold it. -/
def Scalar.DivisionOverflows (ty : Scalar) (op : Operator) (a b : Int) : Prop :=
  a = -2 ^ 31 ∧ b = -1 ∧ (op = .div → ty.isFixedPoint = false)

/-- The least number has no negative in its type. -/
theorem IntType.not_inRange_neg_least {ty : IntType} (hsigned : ty.isSigned) :
    ¬ty.InRange (-ty.least) := by
  have hpos := twoPow_pos (ty.bits - 1)
  simp only [InRange, least, greatest, hsigned, if_true]
  omega

namespace CValue

variable {ty : IntType} {op : Operator}

theorem apply_division_least (hop : op = .div ∨ op = .rem) (hty : 32 ≤ ty.bits)
    (hsigned : ty.isSigned) : (ty.value ty.least).apply op (ty.value (-1)) = none := by
  have hpos := IntType.twoPow_pos (ty.bits - 1)
  have hleast : ty.InRange ty.least := by
    simp only [IntType.InRange, IntType.least, IntType.greatest, hsigned, if_true]
    omega
  have hminus : ty.InRange (-1) := by
    simp only [IntType.InRange, IntType.least, IntType.greatest, hsigned, if_true]
    omega
  have hquotient : ty.result? (-ty.least) = none := by
    simp [IntType.result?, hsigned, IntType.not_inRange_neg_least hsigned]
  rcases hop with rfl | rfl
  all_goals
    rw [apply_of_wide hty rfl, IntType.wrap_of_inRange hleast, IntType.wrap_of_inRange hminus]
    simp [compute, hquotient]

end CValue

namespace CExpr

variable {vars : String → Option CValue} {e lhs rhs : CExpr} {operand result : Scalar}
  {a b : Int} {op : Operator} {x y : String}

/-- Narrowing does not hide an undefined operation. -/
theorem eval_narrow_eq_none (result : Scalar) (h : e.eval vars = none) :
    (narrow result e).eval vars = none := by
  cases result <;> simp [narrow, narrow.low24, eval, h]

/-- Only 32-bit signed types hold the least word. -/
theorem Holds.isSigned_word (h : Holds vars e operand (-2 ^ 31)) : operand.word.isSigned := by
  have hrange := h.inRange_word
  cases hsigned : operand.isSigned with
  | true => simp [Scalar.word, hsigned, IntType.int]
  | false =>
    simp only [Scalar.word, hsigned, Bool.false_eq_true, if_false, IntType.inRange_uint] at hrange
    omega

theorem eval_division_least (hop : op = .div ∨ op = .rem)
    (hl : Holds vars lhs operand (-2 ^ 31)) (hr : Holds vars rhs operand (-1)) :
    (narrow result (binary op (ordered operand lhs) (ordered operand rhs))).eval vars = none := by
  have hsigned := hl.isSigned_word
  refine eval_narrow_eq_none result ?_
  rw [eval_binary op hl.ordered hr.ordered, ← Scalar.least_word hsigned]
  exact CValue.apply_division_least hop (by rw [operand.bits_word]) hsigned

/-- Where the quotient overflows, the expression has no value. -/
theorem eval_arithmetic_overflow (result : Scalar) (hop : op = .div ∨ op = .rem)
    (hl : Holds vars lhs operand a) (hr : Holds vars rhs operand b)
    (h : operand.DivisionOverflows op a b) :
    (arithmetic op operand result lhs rhs).eval vars = none := by
  obtain ⟨rfl, rfl, hinteger⟩ := h
  rcases hop with rfl | rfl
  · simp only [arithmetic, hinteger rfl, Bool.false_eq_true, if_false]
    exact eval_division_least (.inl rfl) hl hr
  · exact eval_division_least (.inr rfl) hl hr

/-- The text of an operator's expression over variables has the value of the expression. -/
theorem valueOf?_arithmetic (op : Operator) (operand result : Scalar) (hx : IsVariable x)
    (hy : IsVariable y) :
    valueOf? vars (arithmetic op operand result (name x) (name y)).text
      = (arithmetic op operand result (name x) (name y)).eval vars := by
  have hspelled : Spelled (arithmetic op operand result (name x) (name y)) :=
    spelled_arithmetic (.leaf hx.isLeaf) (.leaf hy.isLeaf) rfl rfl
  rw [valueOf?, hspelled.read?_text, Option.bind_some]

/-- Division is undefined exactly where the quotient overflows 32 bits. The text of a
quotient or remainder over two variables, read as C, has no value for the least word
divided by minus one, fixed-point quotients apart; for all other operands and divisors
other than zero it has one, the exact result wrapped to the type. -/
theorem division_undefined_iff (hop : op = .div ∨ op = .rem) (hx : Declares vars x operand a)
    (hy : Declares vars y operand b) (hzero : b ≠ 0) :
    (valueOf? vars (arithmetic op operand operand (name x) (name y)).text = none
        ↔ operand.DivisionOverflows op a b)
      ∧ ∀ v, valueOf? vars (arithmetic op operand operand (name x) (name y)).text = some v →
        v.ty = operand.stored ∧ v.raw = operand.wrap (operand.exact op a b) := by
  rw [valueOf?_arithmetic op operand operand hx.isVariable hy.isVariable]
  by_cases hoverflow : operand.DivisionOverflows op a b
  · have hnone := eval_arithmetic_overflow operand hop hx.holds_name hy.holds_name hoverflow
    simp [hnone, hoverflow]
  · have hresult : op.resultType operand = operand := by rcases hop with rfl | rfl <;> rfl
    have hleast : op = .div ∧ operand.isFixedPoint = false ∨ op = .rem →
        ¬(a = -2 ^ 31 ∧ b = -1) := by
      rintro hcase ⟨ha, hb⟩
      refine hoverflow ⟨ha, hb, fun hdiv => ?_⟩
      rcases hcase with ⟨_, hinteger⟩ | rfl
      · exact hinteger
      · cases hdiv
    have hvalue := eval_arithmetic hx.holds_name hy.holds_name (fun _ => hzero) hleast
    rw [hresult] at hvalue
    have hstored : operand.stored.InRange (operand.wrap (operand.exact op a b)) :=
      Scalar.inRange_of_fits (Scalar.fits_wrap _ _) rfl (Nat.le_refl _)
    rw [hvalue]
    simp [hoverflow, IntType.wrap_of_inRange hstored]

/-- `x` is the least 32-bit number of a type, and `y` is minus one. -/
def leastVars (ty : Scalar) (s : String) : Option CValue :=
  if s = "x" then some (ty.stored.value (-2 ^ 31))
  else if s = "y" then some (ty.stored.value (-1))
  else none

theorem declares_leastVars (ty : Scalar) (h : ty.fits (-2 ^ 31)) :
    Declares (leastVars ty) "x" ty (-2 ^ 31) ∧ Declares (leastVars ty) "y" ty (-1) := by
  have hminus : ty.fits (-1) := by
    revert h
    cases ty <;> decide
  have hraw : ∀ n, ty.fits n → (ty.stored.value n).raw = n := fun n hn =>
    IntType.wrap_of_inRange (Scalar.inRange_of_fits hn rfl (Nat.le_refl _))
  exact ⟨⟨⟨by decide, by decide, by decide⟩, by decide, ⟨_, rfl, rfl, hraw _ h⟩, h⟩,
    ⟨⟨by decide, by decide, by decide⟩, by decide, ⟨_, rfl, rfl, hraw _ hminus⟩, hminus⟩⟩

/-- With the same operands of a fixed-point type that fills its container, the remainder
is undefined, and the quotient wraps to zero. -/
theorem division_undefined_iff_fixed :
    valueOf? (leastVars .f16_8) "(f16_8)((int32_t)x % (int32_t)y)" = none
      ∧ ∃ v, valueOf? (leastVars .f16_8)
          "(f16_8)(((int64_t)x * ((int64_t)1 << F16_8_SHIFT)) / (int64_t)y)" = some v
        ∧ v.raw = 0 := by
  obtain ⟨hx, hy⟩ := declares_leastVars .f16_8 (by decide)
  have hrem : (arithmetic .rem .f16_8 .f16_8 (name "x") (name "y")).text
      = "(f16_8)((int32_t)x % (int32_t)y)" := by decide
  have hdiv : (arithmetic .div .f16_8 .f16_8 (name "x") (name "y")).text
      = "(f16_8)(((int64_t)x * ((int64_t)1 << F16_8_SHIFT)) / (int64_t)y)" := by decide
  have hremainder := (division_undefined_iff (.inr rfl) hx hy (by decide)).1
  obtain ⟨hdefined, hvalue⟩ := division_undefined_iff (.inl rfl) hx hy (by decide)
  rw [hrem] at hremainder
  rw [hdiv] at hdefined hvalue
  refine ⟨hremainder.2 ⟨rfl, rfl, nofun⟩, ?_⟩
  have hsome : valueOf? (leastVars .f16_8)
      "(f16_8)(((int64_t)x * ((int64_t)1 << F16_8_SHIFT)) / (int64_t)y)" ≠ none :=
    fun hnone => nomatch (hdefined.1 hnone).2.2 rfl
  obtain ⟨v, hv⟩ := Option.ne_none_iff_exists'.1 hsome
  exact ⟨v, hv, (hvalue v hv).2.trans (by decide)⟩

/-- The quotient and the remainder of the least `i32` by minus one are undefined: both
operands are values of the type, and the divisor is not zero. -/
theorem division_least_undefined :
    Declares (leastVars .i32) "x" .i32 (-2 ^ 31) ∧ Declares (leastVars .i32) "y" .i32 (-1)
      ∧ (arithmetic .div .i32 .i32 (name "x") (name "y")).text = "(i32)((int32_t)x / (int32_t)y)"
      ∧ valueOf? (leastVars .i32) "(i32)((int32_t)x / (int32_t)y)" = none
      ∧ (arithmetic .rem .i32 .i32 (name "x") (name "y")).text = "(i32)((int32_t)x % (int32_t)y)"
      ∧ valueOf? (leastVars .i32) "(i32)((int32_t)x % (int32_t)y)" = none := by
  obtain ⟨hx, hy⟩ := declares_leastVars .i32 (by decide)
  have hdiv : (arithmetic .div .i32 .i32 (name "x") (name "y")).text
      = "(i32)((int32_t)x / (int32_t)y)" := by decide
  have hrem : (arithmetic .rem .i32 .i32 (name "x") (name "y")).text
      = "(i32)((int32_t)x % (int32_t)y)" := by decide
  refine ⟨hx, hy, hdiv, ?_, hrem, ?_⟩
  · rw [← hdiv, valueOf?_arithmetic .div .i32 .i32 hx.isVariable hy.isVariable]
    exact eval_arithmetic_overflow .i32 (.inl rfl) hx.holds_name hy.holds_name
      ⟨rfl, rfl, fun _ => rfl⟩
  · rw [← hrem, valueOf?_arithmetic .rem .i32 .i32 hx.isVariable hy.isVariable]
    exact eval_arithmetic_overflow .i32 (.inr rfl) hx.holds_name hy.holds_name
      ⟨rfl, rfl, fun _ => rfl⟩

end CExpr

end ScalarC
