import Mathlib.Data.Int.Bitwise
import ScalarC.Proofs.CText.Eval

/-!
# Arithmetic on C values

What the operators of C compute on operands of one type that is at least as wide as
`int`. Unsigned operators agree with the operators on integers modulo the width, and
signed ones agree with them exactly where the type represents the result.
-/

namespace ScalarC

namespace IntType

variable {ty wide : IntType} {m n : Int} {k : Nat}

theorem value_congr (h : m ≡ n [ZMOD twoPow ty.bits]) : ty.value m = ty.value n :=
  CValue.ext rfl (wrap_congr h (Nat.le_refl _))

theorem value_wrap (h : ty.bits ≤ wide.bits) : ty.value (wide.wrap n) = ty.value n :=
  CValue.ext rfl (wrap_wrap h)

@[simp] theorem ty_value (ty : IntType) (n : Int) : (ty.value n).ty = ty := rfl

@[simp] theorem raw_value (ty : IntType) (n : Int) : (ty.value n).raw = ty.wrap n := rfl

theorem result?_of_unsigned (h : ty.isSigned = false) : ty.result? n = some (ty.value n) := by
  simp [result?, h]

theorem result?_of_inRange (h : ty.InRange n) : ty.result? n = some (ty.value n) := by
  simp [result?, h]

theorem common_self (ty : IntType) : ty.common ty = ty := by
  simp [common]

theorem inRange_int : int.InRange n ↔ -2 ^ 31 ≤ n ∧ n < 2 ^ 31 := by
  show -2147483648 ≤ n ∧ n ≤ 2147483647 ↔ _
  omega

theorem inRange_uint : uint.InRange n ↔ 0 ≤ n ∧ n < 2 ^ 32 := by
  show 0 ≤ n ∧ n ≤ 4294967295 ↔ _
  omega

theorem inRange_int64 : int64.InRange n ↔ -2 ^ 63 ≤ n ∧ n < 2 ^ 63 := by
  show -9223372036854775808 ≤ n ∧ n ≤ 9223372036854775807 ↔ _
  omega

/-- The quotient is in the range, but for the least number divided by minus one. -/
theorem inRange_tdiv (hsigned : ty.isSigned) (hm : ty.InRange m) (hzero : n ≠ 0)
    (hleast : ¬(m = ty.least ∧ n = -1)) : ty.InRange (m.tdiv n) := by
  have hpos := twoPow_pos (ty.bits - 1)
  have habs : (m.tdiv n).natAbs = m.natAbs / n.natAbs := Int.natAbs_tdiv m n
  simp only [InRange, least, greatest, hsigned, if_true] at *
  by_cases hone : n = 1
  · simp only [hone, Int.tdiv_one]
    exact hm
  by_cases hminus : n = -1
  · simp only [hminus, Int.tdiv_neg, Int.tdiv_one]
    omega
  · have hhalf : m.natAbs / n.natAbs ≤ m.natAbs / 2 :=
      Nat.div_le_div_left (by omega) (by decide)
    omega

end IntType

/-! ## Bit patterns -/

theorem getLsbD_ofInt (w : Nat) (n : Int) (i : Nat) :
    (BitVec.ofInt w n).getLsbD i = (decide (i < w) && n.testBit i) := by
  cases n with
  | ofNat m => simp [Int.testBit, BitVec.getLsbD_ofNat]
  | negSucc m =>
    rw [BitVec.ofInt_negSucc_eq_not_ofNat, BitVec.getLsbD_not, BitVec.getLsbD_ofNat, Int.testBit]
    by_cases hi : i < w <;> simp [hi]

theorem ofInt_land (w : Nat) (m n : Int) :
    BitVec.ofInt w (m.land n) = BitVec.ofInt w m &&& BitVec.ofInt w n := by
  refine BitVec.eq_of_getLsbD_eq fun i hi => ?_
  simp only [BitVec.getLsbD_and, getLsbD_ofInt, Int.testBit_land, hi, decide_true, Bool.true_and]

theorem ofInt_lor (w : Nat) (m n : Int) :
    BitVec.ofInt w (m.lor n) = BitVec.ofInt w m ||| BitVec.ofInt w n := by
  refine BitVec.eq_of_getLsbD_eq fun i hi => ?_
  simp only [BitVec.getLsbD_or, getLsbD_ofInt, Int.testBit_lor, hi, decide_true, Bool.true_and]

theorem ofInt_xor (w : Nat) (m n : Int) :
    BitVec.ofInt w (m.xor n) = BitVec.ofInt w m ^^^ BitVec.ofInt w n := by
  refine BitVec.eq_of_getLsbD_eq fun i hi => ?_
  simp only [BitVec.getLsbD_xor, getLsbD_ofInt, Int.testBit_lxor, hi, decide_true, Bool.true_and]

namespace IntType

variable {ty : IntType} {m n : Int}

theorem ofInt_wrap (ty : IntType) (n : Int) :
    BitVec.ofInt ty.bits (ty.wrap n) = BitVec.ofInt ty.bits n := by
  apply BitVec.eq_of_toNat_eq
  rw [BitVec.toNat_ofInt, BitVec.toNat_ofInt]
  exact congrArg Int.toNat (ty.modEq_wrap n)

theorem value_ofInt (ty : IntType) (n : Int) :
    ty.value (BitVec.ofInt ty.bits n).toNat = ty.value n := by
  refine value_congr ?_
  have hpos : (0 : Int) < twoPow ty.bits := Int.natCast_pos.2 (twoPow_pos ty.bits)
  rw [BitVec.toNat_ofInt]
  show ((n % (twoPow ty.bits : Int)).toNat : Int) ≡ n [ZMOD twoPow ty.bits]
  rw [Int.toNat_of_nonneg (Int.emod_nonneg n hpos.ne')]
  exact Int.mod_modEq n _

end IntType

/-- The exact result of an operator on integers. Shifts count modulo the word size. -/
def Operator.exact (op : Operator) (a b : Int) : Int :=
  match op with
  | .add => a + b
  | .sub => a - b
  | .mul => a * b
  | .div => a.tdiv b
  | .rem => a.tmod b
  | .and => a.land b
  | .or => a.lor b
  | .xor => a.xor b
  | .shl => a * twoPow (b % 32).toNat
  | .shr => a / twoPow (b % 32).toNat
  | .eq => if a = b then 1 else 0
  | .ne => if a ≠ b then 1 else 0
  | .lt => if a < b then 1 else 0
  | .le => if a ≤ b then 1 else 0
  | .gt => if b < a then 1 else 0
  | .ge => if b ≤ a then 1 else 0

/-- The operators whose low bits depend on the low bits of the operands only. -/
def Operator.isModular : Operator → Bool
  | add | sub | mul | and | or | xor => true
  | _ => false

namespace CValue

variable {ty : IntType} {op : Operator} {a b : Int}

theorem promote_of_wide {v : CValue} (h : 32 ≤ v.ty.bits) : v.promote = v := by
  simp [promote, Nat.not_lt.2 h]

/-- Operands of one wide type are not converted. -/
theorem apply_of_wide (hty : 32 ≤ ty.bits) (hop : op.isShift = false) :
    (ty.value a).apply op (ty.value b) = compute ty op (ty.wrap a) (ty.wrap b) := by
  have hpromote : ∀ n, (ty.value n).promote = ty.value n := fun n => promote_of_wide hty
  have hwrap : ∀ n, ty.wrap (ty.wrap n) = ty.wrap n :=
    fun n => IntType.wrap_of_inRange (ty.inRange_wrap n)
  simp [apply, hop, hpromote, IntType.common_self, hwrap]

theorem apply_shift (hty : 32 ≤ ty.bits) (hop : op.isShift) {count : IntType}
    (hcount : 32 ≤ count.bits) (hb : count.InRange b) :
    (ty.value a).apply op (count.value b) = shift op (ty.value a) b := by
  have hpromote : (count.value b).promote.raw = b := by
    rw [promote_of_wide hcount, IntType.raw_value, IntType.wrap_of_inRange hb]
  simp [apply, hop, hpromote, promote_of_wide (v := ty.value a) hty]

/-- Modular operators in an unsigned type. -/
theorem apply_modular (hty : 32 ≤ ty.bits) (hunsigned : ty.isSigned = false)
    (hop : op.isModular) :
    (ty.value a).apply op (ty.value b) = some (ty.value (op.exact a b)) := by
  have ha := ty.modEq_wrap a
  have hb := ty.modEq_wrap b
  cases op with
  | add =>
    rw [apply_of_wide hty rfl, compute, IntType.result?_of_unsigned hunsigned]
    exact congrArg some (IntType.value_congr (ha.add hb))
  | sub =>
    rw [apply_of_wide hty rfl, compute, IntType.result?_of_unsigned hunsigned]
    exact congrArg some (IntType.value_congr (ha.sub hb))
  | mul =>
    rw [apply_of_wide hty rfl, compute, IntType.result?_of_unsigned hunsigned]
    exact congrArg some (IntType.value_congr (ha.mul hb))
  | and =>
    rw [apply_of_wide hty rfl, compute, ty.ofInt_wrap, ty.ofInt_wrap, ← ofInt_land, ty.value_ofInt]
    rfl
  | or =>
    rw [apply_of_wide hty rfl, compute, ty.ofInt_wrap, ty.ofInt_wrap, ← ofInt_lor, ty.value_ofInt]
    rfl
  | xor =>
    rw [apply_of_wide hty rfl, compute, ty.ofInt_wrap, ty.ofInt_wrap, ← ofInt_xor, ty.value_ofInt]
    rfl
  | _ => cases hop

/-- Comparisons of numbers that the type represents. -/
theorem apply_comparison (hty : 32 ≤ ty.bits) (hop : op.isComparison) (ha : ty.InRange a)
    (hb : ty.InRange b) :
    (ty.value a).apply op (ty.value b) = some (IntType.int.value (op.exact a b)) := by
  cases op with
  | eq | ne | lt | le | gt | ge =>
    rw [apply_of_wide hty rfl, IntType.wrap_of_inRange ha, IntType.wrap_of_inRange hb]
    rfl
  | _ => cases hop

theorem result?_tdiv (ha : ty.InRange a) (hzero : b ≠ 0)
    (hleast : ty.isSigned → ¬(a = ty.least ∧ b = -1)) :
    ty.result? (a.tdiv b) = some (ty.value (a.tdiv b)) := by
  cases hsigned : ty.isSigned with
  | true =>
    exact IntType.result?_of_inRange (IntType.inRange_tdiv hsigned ha hzero (hleast hsigned))
  | false => exact IntType.result?_of_unsigned hsigned

/-- Division of numbers that the type represents. The remainder is defined where the
quotient is. -/
theorem apply_division (hop : op = .div ∨ op = .rem) (hty : 32 ≤ ty.bits) (ha : ty.InRange a)
    (hb : ty.InRange b) (hzero : b ≠ 0) (hleast : ty.isSigned → ¬(a = ty.least ∧ b = -1)) :
    (ty.value a).apply op (ty.value b) = some (ty.value (op.exact a b)) := by
  have hquotient := result?_tdiv ha hzero hleast
  rcases hop with rfl | rfl
  all_goals
    rw [apply_of_wide hty rfl, IntType.wrap_of_inRange ha, IntType.wrap_of_inRange hb]
    simp [compute, hzero, hquotient, Operator.exact]

/-- Operands and a result that the type represents. -/
theorem apply_represented (hop : op = .sub ∨ op = .mul) (hty : 32 ≤ ty.bits)
    (ha : ty.InRange a) (hb : ty.InRange b) (h : ty.InRange (op.exact a b)) :
    (ty.value a).apply op (ty.value b) = some (ty.value (op.exact a b)) := by
  rcases hop with rfl | rfl
  all_goals
    rw [apply_of_wide hty rfl, IntType.wrap_of_inRange ha, IntType.wrap_of_inRange hb]
    exact IntType.result?_of_inRange h

/-- A left shift in an unsigned type. -/
theorem shift_shl_of_unsigned (hunsigned : ty.isSigned = false) (hnonneg : 0 ≤ b)
    (hlt : b < ty.bits) :
    shift .shl (ty.value a) b = some (ty.value (a * twoPow b.toNat)) := by
  have hcount : ¬(b < 0 ∨ (ty.bits : Int) ≤ b) := by omega
  have hmod := (ty.modEq_wrap a).mul_right (twoPow b.toNat)
  simp [shift, hcount, hunsigned, IntType.result?_of_unsigned hunsigned,
    IntType.value_congr hmod]

/-- A left shift of a number that is not negative. -/
theorem shift_shl_of_inRange (ha : ty.InRange a) (hpos : 0 ≤ a) (hnonneg : 0 ≤ b)
    (hlt : b < ty.bits) (h : ty.InRange (a * twoPow b.toNat)) :
    shift .shl (ty.value a) b = some (ty.value (a * twoPow b.toNat)) := by
  have hcount : ¬(b < 0 ∨ (ty.bits : Int) ≤ b) := by omega
  simp [shift, hcount, IntType.wrap_of_inRange ha, Int.not_lt.2 hpos,
    IntType.result?_of_inRange h]

/-- A right shift rounds down. -/
theorem shift_shr (ha : ty.InRange a) (hnonneg : 0 ≤ b) (hlt : b < ty.bits) :
    shift .shr (ty.value a) b = some (ty.value (a / twoPow b.toNat)) := by
  have hcount : ¬(b < 0 ∨ (ty.bits : Int) ≤ b) := by omega
  simp [shift, hcount, IntType.wrap_of_inRange ha]

/-- A mask of low bits takes the remainder. -/
theorem apply_mask {k : Nat} (hk : k ≤ ty.bits) (hty : 32 ≤ ty.bits) :
    (ty.value a).apply .and (ty.value (twoPow k - 1 : Nat)) = some (ty.value (a % twoPow k)) := by
  have hpos := IntType.twoPow_pos k
  have hle : twoPow k ≤ twoPow ty.bits := Nat.pow_le_pow_right (by decide) hk
  have hmask : (BitVec.ofInt ty.bits (twoPow k - 1 : Nat)).toNat = twoPow k - 1 := by
    rw [BitVec.ofInt_natCast, BitVec.toNat_ofNat]
    exact Nat.mod_eq_of_lt (show twoPow k - 1 < twoPow ty.bits by omega)
  have hbits : (BitVec.ofInt ty.bits a &&& BitVec.ofInt ty.bits (twoPow k - 1 : Nat)).toNat
      = (a % twoPow k).toNat := by
    rw [BitVec.toNat_and, hmask, BitVec.toNat_ofInt]
    show (a % twoPow ty.bits).toNat &&& 2 ^ k - 1 = (a % twoPow k).toNat
    rw [Nat.and_two_pow_sub_one_eq_mod, ← Int.emod_emod_of_dvd a (IntType.twoPow_dvd hk),
      Int.toNat_emod (Int.emod_nonneg a (by omega)) (by omega)]
    rfl
  rw [apply_of_wide hty rfl, compute, ty.ofInt_wrap, ty.ofInt_wrap, hbits,
    Int.toNat_of_nonneg (Int.emod_nonneg a (by omega))]

/-- Flipping the top bit of a 24-bit number adds half its range. -/
theorem xor_topBit {n : Nat} (h : n < 2 ^ 24) : n ^^^ 2 ^ 23 = (n + 2 ^ 23) % 2 ^ 24 := by
  have hdiv : (n ^^^ 2 ^ 23) / 2 ^ 23 = n / 2 ^ 23 ^^^ 1 := Nat.xor_div_two_pow
  have hmod : (n ^^^ 2 ^ 23) % 2 ^ 23 = n % 2 ^ 23 := by
    rw [Nat.xor_mod_two_pow, Nat.mod_self, Nat.xor_zero]
  have hcases : n / 2 ^ 23 = 0 ∨ n / 2 ^ 23 = 1 := by omega
  rcases hcases with hhigh | hhigh
  · rw [hhigh] at hdiv
    simp only [Nat.zero_xor] at hdiv
    omega
  · rw [hhigh] at hdiv
    simp only [Nat.xor_self] at hdiv
    omega

theorem apply_flip (hnonneg : 0 ≤ a) (hlt : a < 2 ^ 24) :
    (IntType.uint.value a).apply .xor (IntType.uint.value (2 ^ 23))
      = some (IntType.uint.value ((a + 2 ^ 23) % 2 ^ 24)) := by
  have ha : (BitVec.ofInt 32 a).toNat = a.toNat := by
    rw [BitVec.toNat_ofInt]
    omega
  have hbits : (BitVec.ofInt 32 a ^^^ BitVec.ofInt 32 (2 ^ 23)).toNat
      = (a.toNat + 2 ^ 23) % 2 ^ 24 := by
    rw [BitVec.toNat_xor, ha, ← xor_topBit (by omega)]
    rfl
  rw [apply_of_wide (by decide) rfl, compute, IntType.ofInt_wrap, IntType.ofInt_wrap]
  show some (IntType.uint.value (BitVec.ofInt 32 a ^^^ BitVec.ofInt 32 (2 ^ 23)).toNat) = _
  rw [hbits]
  congr 2
  omega

end CValue

end ScalarC
