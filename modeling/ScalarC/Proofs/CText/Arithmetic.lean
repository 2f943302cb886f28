import ScalarC.CText.Arithmetic
import ScalarC.Proofs.CText.ReadBack
import ScalarC.Proofs.CText.Value

/-!
# Arithmetic is exact at the declared width

The C expression of an operator is evaluated in 32 or 64 bits and narrowed. Its value
is the exact result on integers, or on numbers with a binary point, wrapped to the
result type.
-/

namespace ScalarC

namespace CExpr

variable {vars : String → Option CValue} {e lhs rhs : CExpr} {ty : IntType} {a b n : Int}

theorem eval_cast (target : CType) {v : CValue} (h : e.eval vars = some v) :
    (cast target e).eval vars = some (target.meaning.value v.raw) := by
  simp [eval, h]

/-- A conversion to a type that is not wider. -/
theorem eval_cast_of_le (target : CType) (h : e.eval vars = some (ty.value n))
    (hle : target.meaning.bits ≤ ty.bits) :
    (cast target e).eval vars = some (target.meaning.value n) := by
  rw [eval_cast target h, IntType.raw_value, IntType.value_wrap hle]

/-- A conversion of a number that the type represents. -/
theorem eval_cast_of_inRange (target : CType) (h : e.eval vars = some (ty.value n))
    (hn : ty.InRange n) : (cast target e).eval vars = some (target.meaning.value n) := by
  rw [eval_cast target h, IntType.raw_value, IntType.wrap_of_inRange hn]

theorem eval_binary (op : Operator) {v w : CValue} (hl : lhs.eval vars = some v)
    (hr : rhs.eval vars = some w) : (binary op lhs rhs).eval vars = v.apply op w := by
  simp [eval, hl, hr]

/-! ## Narrowing -/

theorem eval_low24 (hty : 32 ≤ ty.bits) (h : e.eval vars = some (ty.value n)) :
    (narrow.low24 e).eval vars = some (IntType.uint.value (n % 2 ^ 24)) := by
  have hword : (cast .uint32 (paren e)).eval vars = some (IntType.uint.value n) :=
    eval_cast_of_le .uint32 h hty
  rw [narrow.low24, eval_binary .and hword rfl]
  exact CValue.apply_mask (k := 24) (by decide) (by decide)

/-- The low 24 bits with the sign of the top one. -/
theorem eval_narrow_i24 (hty : 32 ≤ ty.bits) (h : e.eval vars = some (ty.value n)) :
    (narrow .i24 e).eval vars = some (IntType.int.value (n.bmod (2 ^ 24))) := by
  have hlow : (paren (narrow.low24 e)).eval vars = some (IntType.uint.value (n % 2 ^ 24)) :=
    eval_low24 hty h
  have hflip : (binary .xor (paren (narrow.low24 e)) (hexadecimal 0x800000 true)).eval vars
      = some (IntType.uint.value ((n + 2 ^ 23) % 2 ^ 24)) := by
    rw [eval_binary .xor hlow rfl, ← Int.emod_add_emod]
    exact CValue.apply_flip (by omega) (by omega)
  have hword : (cast .int32 (paren (binary .xor (paren (narrow.low24 e))
      (hexadecimal 0x800000 true)))).eval vars
      = some (IntType.int.value ((n + 2 ^ 23) % 2 ^ 24)) :=
    eval_cast_of_inRange .int32 hflip (IntType.inRange_uint.2 (by omega))
  have hhalf : (hexadecimal 0x800000 false).eval vars = some (IntType.int.value (2 ^ 23)) := rfl
  have hsigned : (n + 2 ^ 23) % 2 ^ 24 - 2 ^ 23 = n.bmod (2 ^ 24) := by
    rw [Int.bmod_def]
    split <;> omega
  have hrange : IntType.int.InRange (Operator.exact .sub ((n + 2 ^ 23) % 2 ^ 24) (2 ^ 23)) :=
    IntType.inRange_int.2 (by show _ ≤ _ - _ ∧ _ - _ < _; omega)
  have hsub := eval_binary .sub hword hhalf
  rw [CValue.apply_represented (.inl rfl) (by decide) (IntType.inRange_int.2 (by omega))
    (IntType.inRange_int.2 (by decide)) hrange, Operator.exact, hsigned] at hsub
  exact eval_cast_of_le (.scalar .i24) hsub (by decide)

/-- Narrowing wraps to the type, whatever its width. -/
theorem eval_narrow (result : Scalar) (hty : 32 ≤ ty.bits) (h : e.eval vars = some (ty.value n)) :
    (narrow result e).eval vars = some (result.stored.value (result.wrap n)) := by
  have hplain : result.range = result.stored →
      (cast (.scalar result) (paren e)).eval vars = some (result.stored.value (result.wrap n)) := by
    intro hrange
    have hbits : result.stored.bits ≤ 32 := by cases result <;> decide
    rw [Scalar.wrap_eq, hrange, IntType.value_wrap (Nat.le_refl _)]
    exact eval_cast_of_le (.scalar result) h (hbits.trans hty)
  cases result with
  | u24 => exact eval_cast_of_le (.scalar .u24) (eval_low24 hty h) (by decide)
  | i24 => exact eval_narrow_i24 hty h
  | _ => exact hplain rfl

end CExpr

/-! ## Operands -/

/-- The 32-bit C type with the sign of the type. -/
def Scalar.word (ty : Scalar) : IntType :=
  if ty.isSigned then .int else .uint

theorem Scalar.bits_word (ty : Scalar) : ty.word.bits = 32 := by
  cases ty <;> rfl

theorem Scalar.inRange_word {ty : Scalar} {a : Int} (h : ty.fits a) : ty.word.InRange a := by
  refine inRange_of_fits h ?_ ?_
  · cases ty <;> rfl
  · cases ty <;> decide

theorem Scalar.least_word {ty : Scalar} (h : ty.word.isSigned) : ty.word.least = -2 ^ 31 := by
  cases ty with
  | u8 | u16 | u24 | u32 => cases h
  | _ => rfl

namespace CExpr

variable {vars : String → Option CValue} {e : CExpr} {a : Int}

/-- The expression has a value of the type. -/
structure Holds (vars : String → Option CValue) (e : CExpr) (ty : Scalar) (a : Int) : Prop where
  fits : ty.fits a
  eval : e.eval vars = some (ty.stored.value a)

namespace Holds

variable {operand : Scalar}

theorem cast (h : Holds vars e operand a) (target : CType) :
    (cast target e).eval vars = some (target.meaning.value a) :=
  eval_cast_of_inRange target h.eval (Scalar.inRange_of_fits h.fits rfl (Nat.le_refl _))

theorem ordered (h : Holds vars e operand a) :
    (ordered operand e).eval vars = some (operand.word.value a) := by
  rw [CExpr.ordered, h.cast, Scalar.word]
  split <;> rfl

theorem inRange_word (h : Holds vars e operand a) : operand.word.InRange a :=
  Scalar.inRange_word h.fits

theorem shiftCount (h : Holds vars e operand a) :
    (shiftCount e).eval vars = some (IntType.uint.value (a % 32)) := by
  rw [CExpr.shiftCount]
  exact (eval_binary .and (h.cast .uint32) rfl).trans
    (CValue.apply_mask (k := 5) (by decide) (by decide))

end Holds

end CExpr

/-- The exact result of an operator on values of a type. Products and quotients of
fixed-point values are scaled, and truncated toward zero. -/
def Scalar.exact (ty : Scalar) (op : Operator) (a b : Int) : Int :=
  match op, ty.fractionBits? with
  | .mul, some f => (a * b).tdiv (twoPow f)
  | .div, some f => (a * twoPow f).tdiv b
  | op, _ => op.exact a b

/-- Comparisons yield a `u8`. -/
def Operator.resultType (op : Operator) (ty : Scalar) : Scalar :=
  if op.isComparison then .u8 else ty

namespace CExpr

variable {vars : String → Option CValue} {e lhs rhs : CExpr} {operand result : Scalar}
  {a b n : Int} {op : Operator}

/-! ## The operators -/

theorem eval_modular (hop : op.isModular) (hl : Holds vars lhs operand a)
    (hr : Holds vars rhs operand b) :
    (narrow result (binary op (cast .uint32 lhs) (cast .uint32 rhs))).eval vars
      = some (result.stored.value (result.wrap (op.exact a b))) := by
  have hwords : (binary op (cast .uint32 lhs) (cast .uint32 rhs)).eval vars
      = some (IntType.uint.value (op.exact a b)) := by
    rw [eval_binary op (hl.cast .uint32) (hr.cast .uint32)]
    exact CValue.apply_modular (by decide) rfl hop
  exact eval_narrow result (by decide) hwords

theorem eval_division (hop : op = .div ∨ op = .rem) (hl : Holds vars lhs operand a)
    (hr : Holds vars rhs operand b) (hzero : b ≠ 0) (hleast : ¬(a = -2 ^ 31 ∧ b = -1)) :
    (narrow result (binary op (ordered operand lhs) (ordered operand rhs))).eval vars
      = some (result.stored.value (result.wrap (op.exact a b))) := by
  have hwords := eval_binary op hl.ordered hr.ordered
  rw [CValue.apply_division hop (by rw [operand.bits_word]) hl.inRange_word hr.inRange_word hzero
    fun hsigned => Scalar.least_word hsigned ▸ hleast] at hwords
  exact eval_narrow result (by rw [operand.bits_word]) hwords

theorem eval_shl (hl : Holds vars lhs operand a) (hr : Holds vars rhs operand b) :
    (narrow result (binary .shl (cast .uint32 lhs) (shiftCount rhs))).eval vars
      = some (result.stored.value (result.wrap (a * twoPow (b % 32).toNat))) := by
  have hwords := eval_binary .shl (hl.cast .uint32) hr.shiftCount
  rw [CValue.apply_shift (by decide) rfl (by decide) (IntType.inRange_uint.2 (by omega)),
    CType.meaning, CValue.shift_shl_of_unsigned rfl (by omega)
    (by show b % 32 < 32; omega)] at hwords
  exact eval_narrow result (by decide) hwords

theorem eval_shr (hl : Holds vars lhs operand a) (hr : Holds vars rhs operand b) :
    (narrow result (binary .shr (ordered operand lhs) (shiftCount rhs))).eval vars
      = some (result.stored.value (result.wrap (a / twoPow (b % 32).toNat))) := by
  have hwords := eval_binary .shr hl.ordered hr.shiftCount
  rw [CValue.apply_shift (by rw [operand.bits_word]) rfl (by decide)
    (IntType.inRange_uint.2 (by omega)),
    CValue.shift_shr hl.inRange_word (by omega) (by rw [operand.bits_word]; omega)] at hwords
  exact eval_narrow result (by rw [operand.bits_word]) hwords

theorem eval_comparison (hop : op.isComparison) (hl : Holds vars lhs operand a)
    (hr : Holds vars rhs operand b) :
    (cast (.scalar .u8) (paren (binary op (ordered operand lhs) (ordered operand rhs)))).eval vars
      = some (Scalar.u8.stored.value (Scalar.u8.wrap (op.exact a b))) := by
  have hwords := eval_binary op hl.ordered hr.ordered
  rw [CValue.apply_comparison (by rw [operand.bits_word]) hop hl.inRange_word hr.inRange_word]
    at hwords
  exact eval_narrow .u8 (by decide) hwords

/-! ## Fixed-point products and quotients -/

theorem isFixedPoint_eq (ty : Scalar) : ty.isFixedPoint = ty.fractionBits?.isSome := by
  simp [Scalar.isFixedPoint, Scalar.fractionBits?]

theorem shiftMacro?_shiftName (ty : Scalar) : shiftMacro? ty.shiftName = ty.fractionBits? := by
  cases ty <;> decide

theorem fractionBits?_le {f : Nat} (h : operand.fractionBits? = some f) : f ≤ 16 := by
  cases operand <;> cases h <;> decide

theorem inRange_twoPow {f : Nat} (h : f ≤ 16) : IntType.int.InRange (twoPow f) := by
  have hle : twoPow f ≤ twoPow 16 := Nat.pow_le_pow_right (by decide) h
  have hmax : twoPow 16 = 65536 := rfl
  exact IntType.inRange_int.2 (by omega)

/-- The product of two words is no more than half of the 64-bit range. -/
theorem mul_bounds (ha : IntType.int.InRange a) (hb : IntType.int.InRange b) :
    -2 ^ 62 ≤ a * b ∧ a * b ≤ 2 ^ 62 := by
  rw [IntType.inRange_int] at ha hb
  have habs : (a * b).natAbs ≤ 2 ^ 31 * 2 ^ 31 := by
    rw [Int.natAbs_mul]
    exact Nat.mul_le_mul (by omega) (by omega)
  omega

theorem inRange_count {f : Nat} (h : f ≤ 16) : IntType.int.InRange f :=
  IntType.inRange_int.2 (by omega)

theorem eval_shiftName (vars : String → Option CValue) {f : Nat}
    (h : operand.fractionBits? = some f) :
    (name operand.shiftName).eval vars = some (IntType.int.value f) := by
  have hcount := inRange_count (fractionBits?_le h)
  simp [eval, shiftMacro?_shiftName, h, constant?, decimalTypes, hcount]

theorem eval_scaledOne {f : Nat} (hf : f ≤ 16) (h : e.eval vars = some (IntType.int.value f)) :
    (scaledOne e).eval vars = some (IntType.int64.value (twoPow f)) := by
  have hcount := inRange_count hf
  have hone : (cast .int64 (decimal 1 false)).eval vars = some (IntType.int64.value 1) := rfl
  have hpow : IntType.int64.InRange (1 * twoPow f) := by
    have := IntType.inRange_int.1 (inRange_twoPow hf)
    exact IntType.inRange_int64.2 (by omega)
  rw [scaledOne, eval, eval_binary .shl hone h, CValue.apply_shift (by decide) rfl (by decide)
    hcount, CValue.shift_shl_of_inRange (by decide) (by decide) (by omega)
    (by show (f : Int) < 64; omega) hpow]
  simp

/-- A product of words in 64 bits. -/
theorem eval_product (hl : lhs.eval vars = some (IntType.int64.value a))
    (hr : rhs.eval vars = some (IntType.int64.value b)) (ha : IntType.int.InRange a)
    (hb : IntType.int.InRange b) :
    (binary .mul lhs rhs).eval vars = some (IntType.int64.value (a * b)) := by
  have hbounds := mul_bounds ha hb
  rw [eval_binary .mul hl hr]
  exact CValue.apply_represented (.inr rfl) (by decide) (ha.widen rfl (by decide))
    (hb.widen rfl (by decide)) (IntType.inRange_int64.2 (by show _ ≤ a * b ∧ a * b < _; omega))

/-- A quotient in 64 bits, of a product of words by a word. -/
theorem eval_ratio (hl : lhs.eval vars = some (IntType.int64.value n))
    (hr : rhs.eval vars = some (IntType.int64.value b)) (hn : -2 ^ 62 ≤ n ∧ n ≤ 2 ^ 62)
    (hb : IntType.int.InRange b) (hzero : b ≠ 0) :
    (binary .div lhs rhs).eval vars = some (IntType.int64.value (n.tdiv b)) := by
  rw [eval_binary .div hl hr]
  refine CValue.apply_division (.inl rfl) (by decide) (IntType.inRange_int64.2 (by omega))
    (hb.widen rfl (by decide)) hzero fun _ hleast => ?_
  have heq : n = -2 ^ 63 := hleast.1
  omega

theorem Holds.inRange_int {f : Nat} (h : Holds vars e operand a)
    (hf : operand.fractionBits? = some f) : IntType.int.InRange a := by
  refine Scalar.inRange_of_fits h.fits ?_ ?_
  · cases operand <;> cases hf <;> rfl
  · cases operand <;> decide

theorem eval_fixedProduct {f : Nat} (hf : operand.fractionBits? = some f)
    (hl : Holds vars lhs operand a) (hr : Holds vars rhs operand b) :
    (fixedProduct operand lhs rhs).eval vars
      = some (IntType.int64.value ((a * b).tdiv (twoPow f))) := by
  have ha := hl.inRange_int hf
  have hb := hr.inRange_int hf
  have hproduct := eval_product (hl.cast .int64) (hr.cast .int64) ha hb
  have hone := eval_scaledOne (fractionBits?_le hf) (eval_shiftName vars hf)
  have hpos := IntType.twoPow_pos f
  exact eval_ratio hproduct hone (mul_bounds ha hb) (inRange_twoPow (fractionBits?_le hf))
    (by omega)

theorem eval_fixedQuotient {f : Nat} (hf : operand.fractionBits? = some f)
    (hl : Holds vars lhs operand a) (hr : Holds vars rhs operand b) (hzero : b ≠ 0) :
    (fixedQuotient operand lhs rhs).eval vars
      = some (IntType.int64.value ((a * twoPow f).tdiv b)) := by
  have ha := hl.inRange_int hf
  have hb := hr.inRange_int hf
  have hone := eval_scaledOne (fractionBits?_le hf) (eval_shiftName vars hf)
  have hrange := inRange_twoPow (fractionBits?_le hf)
  have hscaled := eval_product (hl.cast .int64) hone ha hrange
  exact eval_ratio hscaled (hr.cast .int64) (mul_bounds ha hrange) hb hzero

/-- The value of an operator's expression. -/
theorem eval_arithmetic (hl : Holds vars lhs operand a) (hr : Holds vars rhs operand b)
    (hzero : op = .div ∨ op = .rem → b ≠ 0)
    (hleast : op = .div ∧ operand.isFixedPoint = false ∨ op = .rem → ¬(a = -2 ^ 31 ∧ b = -1)) :
    (arithmetic op operand (op.resultType operand) lhs rhs).eval vars
      = some ((op.resultType operand).stored.value
        ((op.resultType operand).wrap (operand.exact op a b))) := by
  cases op with
  | add | sub | and | or | xor => exact eval_modular rfl hl hr
  | shl => exact eval_shl hl hr
  | shr => exact eval_shr hl hr
  | eq | ne | lt | le | gt | ge => exact eval_comparison rfl hl hr
  | rem => exact eval_division (.inr rfl) hl hr (hzero (.inr rfl)) (hleast (.inr rfl))
  | mul =>
    cases hf : operand.fractionBits? with
    | some f =>
      simp only [arithmetic, isFixedPoint_eq, hf, Option.isSome_some, if_true, Scalar.exact]
      exact eval_narrow _ (by decide) (eval_fixedProduct hf hl hr)
    | none =>
      simp only [arithmetic, isFixedPoint_eq, hf, Option.isSome_none, Bool.false_eq_true, if_false,
        Scalar.exact]
      exact eval_modular rfl hl hr
  | div =>
    cases hf : operand.fractionBits? with
    | some f =>
      simp only [arithmetic, isFixedPoint_eq, hf, Option.isSome_some, if_true, Scalar.exact]
      exact eval_narrow _ (by decide) (eval_fixedQuotient hf hl hr (hzero (.inl rfl)))
    | none =>
      have hinteger : operand.isFixedPoint = false := by
        rw [isFixedPoint_eq, hf, Option.isSome_none]
      simp only [arithmetic, hinteger, hf, Bool.false_eq_true, if_false, Scalar.exact]
      exact eval_division (.inl rfl) hl hr (hzero (.inl rfl)) (hleast (.inl ⟨rfl, hinteger⟩))

/-! ## The text -/

theorem spelled_narrow (result : Scalar) (h : Spelled e) : Spelled (narrow result e) := by
  have hmask : Spelled (narrow.low24 e) :=
    .binary .and (.cast .uint32 (.paren h) rfl) (.leaf (isLeaf_hexadecimal _ _)) rfl rfl
  cases result with
  | u24 => exact .cast _ (.paren hmask) rfl
  | i24 =>
    have hflip := Spelled.binary .xor hmask.paren (.leaf (isLeaf_hexadecimal 0x800000 true)) rfl rfl
    exact .cast _ (.paren (.binary .sub (.cast .int32 hflip.paren rfl)
      (.leaf (isLeaf_hexadecimal _ _)) rfl rfl)) rfl
  | _ => exact .cast _ (.paren h) rfl

theorem isVariable_shiftName (ty : Scalar) : IsVariable ty.shiftName := by
  cases ty <;> exact ⟨by decide, by decide, by decide⟩

theorem spelled_shiftName (ty : Scalar) : Spelled (name ty.shiftName) :=
  .leaf (isVariable_shiftName ty).isLeaf

theorem spelled_scaledOne (h : Spelled e) (operand : e.isOperand) : Spelled (scaledOne e) :=
  .paren (.binary .shl (.cast .int64 (.leaf (isLeaf_decimal 1 false)) rfl) h rfl operand)

theorem spelled_arithmetic (hl : Spelled lhs) (hr : Spelled rhs) (left : lhs.isOperand)
    (right : rhs.isOperand) : Spelled (arithmetic op operand result lhs rhs) := by
  have hcast : ∀ ty ty', Spelled (binary op (cast ty lhs) (cast ty' rhs)) :=
    fun ty ty' => .binary op (.cast ty hl left) (.cast ty' hr right) rfl rfl
  have hone := spelled_scaledOne (spelled_shiftName operand) rfl
  have hcount : Spelled (shiftCount rhs) :=
    .paren (.binary .and (.cast .uint32 hr right) (.leaf (isLeaf_decimal 31 true)) rfl rfl)
  cases op with
  | add | sub | and | or | xor => exact spelled_narrow result (hcast _ _)
  | rem => exact spelled_narrow result (hcast _ _)
  | mul =>
    simp only [arithmetic]
    split
    · exact spelled_narrow result (.binary .div (hcast _ _).paren hone rfl rfl)
    · exact spelled_narrow result (hcast _ _)
  | div =>
    simp only [arithmetic]
    split
    · have hscaled := Spelled.binary .mul (.cast .int64 hl left) hone rfl rfl
      exact spelled_narrow result (.binary .div hscaled.paren (.cast .int64 hr right) rfl rfl)
    · exact spelled_narrow result (hcast _ _)
  | shl | shr => exact spelled_narrow result (.binary _ (.cast _ hl left) hcount rfl rfl)
  | eq | ne | lt | le | gt | ge => exact .cast _ (hcast _ _).paren rfl

/-- The value of a text that is read as an expression. -/
def valueOf? (vars : String → Option CValue) (text : String) : Option CValue :=
  (read? text).bind (eval vars)

/-- The variable is declared with a scalar type and holds a value of it. -/
structure Declares (vars : String → Option CValue) (x : String) (ty : Scalar) (a : Int) : Prop where
  isVariable : IsVariable x
  notMacro : shiftMacro? x = none
  holds : ∃ v, vars x = some v ∧ v.ty = ty.stored ∧ v.raw = a
  fits : ty.fits a

theorem Declares.holds_name {x : String} (h : Declares vars x operand a) :
    Holds vars (name x) operand a := by
  obtain ⟨v, hvar, hty, hraw⟩ := h.holds
  have hstored : operand.stored.InRange a := Scalar.inRange_of_fits h.fits rfl (Nat.le_refl _)
  have hv : v = operand.stored.value a :=
    CValue.ext hty (hraw.trans (IntType.wrap_of_inRange hstored).symm)
  exact ⟨h.fits, by rw [eval, h.notMacro, hvar, hv]⟩

/-- Arithmetic wraps exactly at the declared width. The text of an operator's expression
over two variables, read as C, has a value, and it is the exact result wrapped to the
result type. The operands are any values of the type, but for zero divisors and the
least 32-bit word divided by minus one. -/
theorem value_arithmetic (op : Operator) {x y : String} (hx : Declares vars x operand a)
    (hy : Declares vars y operand b) (hzero : op = .div ∨ op = .rem → b ≠ 0)
    (hleast : op = .div ∧ operand.isFixedPoint = false ∨ op = .rem → ¬(a = -2 ^ 31 ∧ b = -1)) :
    ∃ v, valueOf? vars (arithmetic op operand (op.resultType operand) (name x) (name y)).text
        = some v
      ∧ v.ty = (op.resultType operand).stored
      ∧ v.raw = (op.resultType operand).wrap (operand.exact op a b) := by
  have hspelled : Spelled (arithmetic op operand (op.resultType operand) (name x) (name y)) :=
    spelled_arithmetic (.leaf hx.isVariable.isLeaf) (.leaf hy.isVariable.isLeaf) rfl rfl
  have hvalue := eval_arithmetic hx.holds_name hy.holds_name hzero hleast
  refine ⟨_, by rw [valueOf?, hspelled.read?_text, Option.bind_some, hvalue], rfl, ?_⟩
  exact IntType.wrap_of_inRange
    (Scalar.inRange_of_fits (Scalar.fits_wrap _ _) rfl (Nat.le_refl _))

/-- `x` is the least 8-bit number, and `y` is minus one. -/
def sampleVars (s : String) : Option CValue :=
  if s = "x" then some (Scalar.i8.stored.value (-128))
  else if s = "y" then some (Scalar.i8.stored.value (-1))
  else none

/-- The least 8-bit number divided by minus one wraps to itself. -/
theorem value_arithmetic_least :
    ∃ v, valueOf? sampleVars "(i8)((int32_t)x / (int32_t)y)" = some v
      ∧ v.ty = Scalar.i8.stored ∧ v.raw = -128 := by
  have hx : Declares sampleVars "x" .i8 (-128) :=
    ⟨⟨by decide, by decide, by decide⟩, by decide, ⟨_, rfl, rfl, by decide⟩, by decide⟩
  have hy : Declares sampleVars "y" .i8 (-1) :=
    ⟨⟨by decide, by decide, by decide⟩, by decide, ⟨_, rfl, rfl, by decide⟩, by decide⟩
  have htext : (arithmetic .div .i8 .i8 (name "x") (name "y")).text
      = "(i8)((int32_t)x / (int32_t)y)" := by decide
  obtain ⟨v, hvalue, hty, hraw⟩ :=
    value_arithmetic .div hx hy (by decide) (by decide)
  exact ⟨v, htext ▸ hvalue, hty, hraw.trans (by decide)⟩

end CExpr

end ScalarC
