import Mathlib.Data.Nat.Bitwise
import ScalarC.Proofs.Scalar.Wrap

/-!
# Words and containers

Wraparound is reduction modulo a power of two. The reduced number is the only one in the
range with the same residue, so it does not matter how it is computed: by a division, by the
masks of 64-bit words, or through the bit pattern of a 32-bit container. A pattern comes back
from its value if and only if it is that of a value: the bits above the surviving ones are
zero, or copies of the sign.

## Main definitions

* `IntType.mask`: the reduced number, computed with masks.
* `Scalar.IsExtended`: the upper bits of a container repeat the sign, or are zero.
-/

namespace ScalarC

namespace IntType

variable {ty : IntType} {m n : Int} {k : Nat}

/-! ## Residues -/

/-- The number in the range with a given residue. -/
theorem wrap_eq_iff : ty.wrap n = m ↔ ty.InRange m ∧ m ≡ n [ZMOD twoPow ty.bits] := by
  constructor
  · rintro rfl
    exact ⟨ty.inRange_wrap n, ty.modEq_wrap n⟩
  · rintro ⟨hrange, hresidue⟩
    rw [← wrap_of_inRange hrange]
    exact (wrap_congr hresidue (Nat.le_refl _)).symm

theorem inRange_iff_wrap : ty.InRange n ↔ ty.wrap n = n :=
  ⟨wrap_of_inRange, fun h => h ▸ ty.inRange_wrap n⟩

theorem wrap_add (ty : IntType) (m n : Int) : ty.wrap (ty.wrap m + ty.wrap n) = ty.wrap (m + n) :=
  wrap_congr ((ty.modEq_wrap m).add (ty.modEq_wrap n)) (Nat.le_refl _)

theorem wrap_mul (ty : IntType) (m n : Int) : ty.wrap (ty.wrap m * ty.wrap n) = ty.wrap (m * n) :=
  wrap_congr ((ty.modEq_wrap m).mul (ty.modEq_wrap n)) (Nat.le_refl _)

theorem bmod_emod_twoPow {j : Nat} (h : k ≤ j) (n : Int) :
    n.bmod (twoPow j) % twoPow k = n % twoPow k := by
  rw [← Int.emod_emod_of_dvd _ (twoPow_dvd h), Int.bmod_emod, Int.emod_emod_of_dvd _ (twoPow_dvd h)]

/-- What a wider word loses is lost anyway. -/
theorem wrap_bmod (ty : IntType) (h : ty.bits ≤ k) (n : Int) :
    ty.wrap (n.bmod (twoPow k)) = ty.wrap n :=
  wrap_congr (bmod_emod_twoPow h n) (Nat.le_refl _)

/-! ## Masks -/

/-- The 64-bit word in which only bit `k` is set. -/
def wordBit (k : Nat) : Int64 := 1 <<< Int64.ofNat k

/-- The number that the low bits of a word stand for, computed in 64-bit words. -/
def mask (ty : IntType) (value : Int64) : Int64 :=
  let low := value &&& (wordBit ty.bits - 1)
  if ty.isSigned && (low &&& wordBit (ty.bits - 1)) != 0 then low - wordBit ty.bits else low

theorem toNat_wordBit (h : k < 64) : (wordBit k).toBitVec.toNat = twoPow k := by
  have hall : ∀ k < 64, (wordBit k).toBitVec.toNat = twoPow k := by decide
  exact hall k h

/-- The number of a word whose top bit is not set. -/
theorem toInt_of_toNat {value : Int64} (h : value.toBitVec.toNat < 2 ^ 63) :
    value.toInt = value.toBitVec.toNat :=
  BitVec.toInt_eq_toNat_of_lt (x := value.toBitVec) (by omega)

theorem toNat_of_nonneg {value : Int64} (h : 0 ≤ value.toInt) :
    (value.toBitVec.toNat : Int) = value.toInt := by
  refine (toInt_of_toNat ?_).symm
  by_contra hle
  have htop : value.toInt = value.toBitVec.toNat - 2 ^ 64 := by
    have hword := BitVec.toInt_eq_toNat_cond value.toBitVec
    rw [if_neg (by omega)] at hword
    exact_mod_cast hword
  have hlt := value.toBitVec.isLt
  omega

theorem twoPow_lt (h : k < 63) : twoPow k < 2 ^ 63 := Nat.pow_lt_pow_right (by decide) h

theorem toInt_wordBit (h : k < 63) : (wordBit k).toInt = twoPow k := by
  have hword := toNat_wordBit (Nat.lt_succ_of_lt h)
  rw [toInt_of_toNat (hword ▸ twoPow_lt h), hword]

theorem toNat_and_mask (value : Int64) (h : k < 64) :
    (value &&& (wordBit k - 1)).toBitVec.toNat = value.toBitVec.toNat % twoPow k := by
  have hone : (1 : Int64).toBitVec ≤ (wordBit k).toBitVec := by
    rw [BitVec.le_def, toNat_wordBit h]
    exact twoPow_pos k
  rw [Int64.toBitVec_and, Int64.toBitVec_sub, BitVec.toNat_and, BitVec.toNat_sub_of_le hone,
    toNat_wordBit h]
  exact Nat.and_two_pow_sub_one_eq_mod _ k

/-- A mask of ones is a division. -/
theorem toInt_and_mask (value : Int64) (h : k < 63) :
    (value &&& (wordBit k - 1)).toInt = value.toInt % twoPow k := by
  have hlow := toNat_and_mask value (Nat.lt_succ_of_lt h)
  have hlt := Nat.mod_lt value.toBitVec.toNat (twoPow_pos k)
  have hvalue : value.toInt = (value.toBitVec.toNat : Int).bmod (twoPow 64) :=
    BitVec.toInt_eq_toNat_bmod value.toBitVec
  rw [toInt_of_toNat (hlow ▸ Nat.lt_trans hlt (twoPow_lt h)), hlow, hvalue,
    bmod_emod_twoPow (by omega)]
  exact Int.natCast_emod _ _

/-- A mask of one bit finds the upper half. -/
theorem and_wordBit_ne_zero {value : Int64} (h : k < 63) (hnonneg : 0 ≤ value.toInt)
    (hlt : value.toInt < twoPow (k + 1)) :
    (value &&& wordBit k != 0) = decide ((twoPow k : Int) ≤ value.toInt) := by
  have hnat := toNat_of_nonneg hnonneg
  have hzero : value &&& wordBit k = 0 ↔ (value.toBitVec.toNat.testBit k).toNat * 2 ^ k = 0 := by
    have hbit : (wordBit k).toBitVec.toNat = 2 ^ k := toNat_wordBit (Nat.lt_succ_of_lt h)
    rw [← Nat.and_two_pow, ← hbit, ← BitVec.toNat_and, ← Int64.toBitVec_and, ← Int64.toBitVec_inj,
      ← BitVec.toNat_inj]
    rfl
  by_cases hle : twoPow k ≤ value.toBitVec.toNat
  · have hbelow : value.toBitVec.toNat < twoPow (k + 1) := by omega
    have htop := Nat.testBit_of_two_pow_le_and_two_pow_add_one_gt hle hbelow
    have hupper : (twoPow k : Int) ≤ value.toInt := by omega
    simp [hzero, htop, hupper]
  · have htop := Nat.testBit_lt_two_pow (Nat.lt_of_not_le hle)
    have hlower : ¬(twoPow k : Int) ≤ value.toInt := by omega
    simp [hzero, htop, hlower]

/-- Masks compute the wrapped number. -/
theorem toInt_mask (h : ty.bits < 63) (value : Int64) :
    (ty.mask value).toInt = ty.wrap value.toInt := by
  have hhalf := ty.twoPow_bits
  have hpos := twoPow_pos ty.bits
  have hword := twoPow_lt h
  have hlow := toInt_and_mask value h
  have hnonneg := Int.emod_nonneg value.toInt (b := twoPow ty.bits) (by omega)
  have hlt := Int.emod_lt_of_pos value.toInt (b := twoPow ty.bits) (by omega)
  rw [← hlow] at hnonneg hlt
  have hsign := and_wordBit_ne_zero (k := ty.bits - 1) (by omega) hnonneg
    (by rwa [Nat.sub_add_cancel ty.bits_pos])
  simp only [mask, wrap, hsign]
  cases ty.isSigned with
  | false => simpa using hlow
  | true =>
    simp only [Bool.true_and, decide_eq_true_eq, if_true, Int.bmod_def, ← hlow]
    split
    · rw [Int64.toInt_sub, toInt_wordBit h, if_neg (by omega)]
      exact Int.bmod_eq_of_le (by omega) (by omega)
    · rw [if_pos (by omega)]

/-! ## Containers -/

/-- Wrapping a bit pattern keeps the low bits, and fills the others with the sign. -/
theorem getLsbD_ofInt_wrap (ty : IntType) (pattern : BitVec k) {i : Nat} (hi : i < k) :
    (BitVec.ofInt k (ty.wrap pattern.toNat)).getLsbD i
      = if i < ty.bits then pattern.getLsbD i
        else ty.isSigned && pattern.getLsbD (ty.bits - 1) := by
  have hpos := ty.bits_pos
  unfold wrap
  cases ty.isSigned with
  | false =>
    have hlow : (pattern.toNat : Int) % twoPow ty.bits = (pattern.setWidth ty.bits).toNat := by
      simp [twoPow]
    rw [if_neg (by simp), hlow, BitVec.ofInt_natCast, BitVec.getLsbD_ofNat, ← BitVec.getLsbD,
      BitVec.getLsbD_setWidth]
    simp only [hi, decide_true, Bool.true_and, Bool.false_and]
    by_cases hlt : i < ty.bits <;> simp [hlt]
  | true =>
    have hsigned : (pattern.toNat : Int).bmod (twoPow ty.bits) = (pattern.setWidth ty.bits).toInt :=
      (BitVec.toInt_setWidth pattern).symm
    have hextend : BitVec.ofInt k (pattern.setWidth ty.bits).toInt
        = (pattern.setWidth ty.bits).signExtend k := rfl
    rw [if_pos rfl, hsigned, hextend, BitVec.getLsbD_signExtend, BitVec.msb_setWidth]
    by_cases hlt : i < ty.bits
    · simp [hi, hlt]
    · simp [hi, hlt, hpos]

end IntType

namespace Scalar

variable {ty : Scalar} {bits : UInt32}

/-- The bits above the surviving ones are copies of the sign bit, and zero without a sign. -/
def IsExtended (ty : Scalar) (bits : UInt32) : Prop :=
  ∀ i, ty.wrapBits ≤ i → i < 32 →
    bits.toBitVec.getLsbD i = (ty.isSigned && bits.toBitVec.getLsbD (ty.wrapBits - 1))

theorem wrapBits_le (ty : Scalar) : ty.wrapBits ≤ 32 := by
  cases ty <;> decide

theorem wrap_wrap (ty : Scalar) (n : Int) : ty.wrap (ty.wrap n) = ty.wrap n :=
  wrap_of_fits (ty.fits_wrap n)

theorem toBitVec_toBits (ty : Scalar) (n : Int) :
    (ty.toBits n).toBitVec = BitVec.ofInt 32 (ty.wrap n) := by
  have hlt := Int.emod_lt_of_pos (ty.wrap n) (b := 4294967296) (by decide)
  simp [toBits, UInt32.ofInt, ← BitVec.toNat_inj, hlt]

/-- A value is read back from its container. -/
theorem ofBits_toBits (ty : Scalar) (n : Int) : ty.ofBits (ty.toBits n) = ty.wrap n := by
  have hpattern : ((ty.toBits n).toNat : Int) = ty.wrap n % twoPow 32 := by
    rw [← UInt32.toNat_toBitVec, toBitVec_toBits, BitVec.toNat_ofInt]
    exact Int.toNat_of_nonneg (Int.emod_nonneg _ (by decide))
  have hlow : ty.range.wrap (ty.wrap n % twoPow 32) = ty.range.wrap (ty.wrap n) :=
    IntType.wrap_congr (Int.emod_emod_of_dvd _ (Int.dvd_refl _)) ty.wrapBits_le
  calc
    ty.ofBits (ty.toBits n) = ty.wrap (ty.wrap n % twoPow 32) := by rw [ofBits, hpattern]
    _ = ty.wrap (ty.wrap n) := hlow
    _ = ty.wrap n := ty.wrap_wrap n

/-- The patterns that come back from the values they stand for. -/
theorem toBits_ofBits_iff : ty.toBits (ty.ofBits bits) = bits ↔ ty.IsExtended bits := by
  have hbits : ∀ i < 32, (ty.toBits (ty.ofBits bits)).toBitVec.getLsbD i
      = if i < ty.wrapBits then bits.toBitVec.getLsbD i
        else ty.isSigned && bits.toBitVec.getLsbD (ty.wrapBits - 1) := by
    intro i hi
    rw [toBitVec_toBits, ofBits, wrap_wrap]
    exact ty.range.getLsbD_ofInt_wrap bits.toBitVec hi
  rw [← UInt32.toBitVec_inj]
  constructor
  · intro h i hle hi
    rw [← h, hbits i hi, if_neg (Nat.not_lt.2 hle), h]
  · intro h
    refine BitVec.eq_of_getLsbD_eq fun i hi => ?_
    rw [hbits i hi]
    split
    · rfl
    · exact (h i (Nat.le_of_not_lt ‹_›) hi).symm

theorem toInt_mask_range (ty : Scalar) (value : Int64) :
    (ty.range.mask value).toInt = ty.wrap value.toInt :=
  IntType.toInt_mask (Nat.lt_of_le_of_lt ty.wrapBits_le (by decide)) value

/-- Masks give the same word for words that stand for congruent numbers. -/
theorem mask_range_congr {a b : Int64} (h : ty.wrap a.toInt = ty.wrap b.toInt) :
    ty.range.mask a = ty.range.mask b := by
  rw [← Int64.toInt_inj, toInt_mask_range, toInt_mask_range, h]

theorem wrap_toInt_add (ty : Scalar) (a b : Int64) :
    ty.wrap (a + b).toInt = ty.wrap (a.toInt + b.toInt) := by
  rw [Int64.toInt_add]
  exact ty.range.wrap_bmod (Nat.le_trans ty.wrapBits_le (by decide)) _

theorem wrap_toInt_mul (ty : Scalar) (a b : Int64) :
    ty.wrap (a * b).toInt = ty.wrap (a.toInt * b.toInt) := by
  rw [Int64.toInt_mul]
  exact ty.range.wrap_bmod (Nat.le_trans ty.wrapBits_le (by decide)) _

/-- Wraparound is reduction modulo the width, and containers are lossless. The wrapped number
is the only one in the range that is congruent to the given one; the numbers in the range are
those that stay as they are; and sums and products may be wrapped before or after. Masks of
64-bit words compute the same, also where a sum or product leaves the word. A value is read
back from its container, and a pattern comes back from its value exactly if its upper bits
extend the lower ones. -/
theorem wrap_container_exact (ty : Scalar) :
    (∀ value n, ty.wrap value = n ↔
      ty.minValue ≤ n ∧ n ≤ ty.maxValue ∧ n ≡ value [ZMOD 2 ^ ty.wrapBits])
    ∧ (∀ value, ty.fits value = true ↔ ty.wrap value = value)
    ∧ (∀ a b, ty.wrap (ty.wrap a + ty.wrap b) = ty.wrap (a + b)
      ∧ ty.wrap (ty.wrap a * ty.wrap b) = ty.wrap (a * b))
    ∧ (∀ value : Int64, (ty.range.mask value).toInt = ty.wrap value.toInt)
    ∧ (∀ a b : Int64,
      ty.range.mask (ty.range.mask a + ty.range.mask b) = ty.range.mask (a + b)
      ∧ ty.range.mask (ty.range.mask a * ty.range.mask b) = ty.range.mask (a * b))
    ∧ (∀ value, ty.ofBits (ty.toBits value) = ty.wrap value)
    ∧ ∀ bits, ty.toBits (ty.ofBits bits) = bits ↔ ty.IsExtended bits := by
  refine ⟨fun value n => ?_, fun value => fits_iff.trans IntType.inRange_iff_wrap,
    fun a b => ⟨ty.range.wrap_add a b, ty.range.wrap_mul a b⟩, ty.toInt_mask_range,
    fun a b => ⟨mask_range_congr ?_, mask_range_congr ?_⟩, ty.ofBits_toBits,
    fun bits => toBits_ofBits_iff⟩
  · have hmodulus : ((twoPow ty.range.bits : Nat) : Int) = 2 ^ ty.wrapBits := by
      simp [twoPow, range]
    rw [wrap_eq, IntType.wrap_eq_iff, hmodulus, ← and_assoc]
    rfl
  · rw [wrap_toInt_add, wrap_toInt_add, toInt_mask_range, toInt_mask_range]
    exact ty.range.wrap_add _ _
  · rw [wrap_toInt_mul, wrap_toInt_mul, toInt_mask_range, toInt_mask_range]
    exact ty.range.wrap_mul _ _

end Scalar

end ScalarC
