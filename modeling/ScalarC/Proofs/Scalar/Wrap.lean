import Mathlib.Data.Int.ModEq
import ScalarC.Scalar.Range

/-!
# Wraparound

Reducing a number to the range of an integer type leaves it in the range, keeps it
where it was in the range already, and depends only on the number modulo the bits of
the type. A scalar type wraps like the integer type with its surviving bits.

## Main definitions

* `IntType`: a width and a sign, with `InRange` and `wrap`.
* `Scalar.range`: the integer type whose numbers are the values of a scalar type.
* `Scalar.stored`: the C type that a scalar type is stored in.
-/

namespace ScalarC

/-- An integer type in two's complement. -/
structure IntType where
  bits : Nat
  isSigned : Bool
  bits_pos : 0 < bits := by decide
deriving DecidableEq, Repr

namespace IntType

variable {ty narrow : IntType} {m n : Int} {k : Nat}

def least (ty : IntType) : Int :=
  if ty.isSigned then -twoPow (ty.bits - 1) else 0

def greatest (ty : IntType) : Int :=
  if ty.isSigned then twoPow (ty.bits - 1) - 1 else twoPow ty.bits - 1

/-- The type represents the number. -/
def InRange (ty : IntType) (n : Int) : Prop :=
  ty.least ≤ n ∧ n ≤ ty.greatest

instance (ty : IntType) (n : Int) : Decidable (ty.InRange n) :=
  inferInstanceAs (Decidable (_ ∧ _))

/-- The number that the low bits of `n` stand for. -/
def wrap (ty : IntType) (n : Int) : Int :=
  if ty.isSigned then n.bmod (twoPow ty.bits) else n % twoPow ty.bits

/-- The range splits into two halves of the same size. -/
theorem twoPow_bits (ty : IntType) : twoPow ty.bits = 2 * twoPow (ty.bits - 1) := by
  obtain ⟨bits, _, hpos⟩ := ty
  obtain ⟨k, rfl⟩ := Nat.exists_eq_add_of_lt hpos
  simp [twoPow, Nat.pow_succ, Nat.mul_comm]

theorem twoPow_pos (k : Nat) : 0 < twoPow k :=
  Nat.pow_pos (by decide)

theorem twoPow_dvd {j k : Nat} (h : j ≤ k) : (twoPow j : Int) ∣ twoPow k :=
  Int.natCast_dvd_natCast.2 (Nat.pow_dvd_pow 2 h)

theorem inRange_wrap (ty : IntType) (n : Int) : ty.InRange (ty.wrap n) := by
  have hhalf := ty.twoPow_bits
  have hpos := twoPow_pos ty.bits
  unfold InRange least greatest wrap
  split
  · have hle := Int.le_bmod (x := n) hpos
    have hlt := Int.bmod_lt (x := n) hpos
    omega
  · have hle := Int.emod_nonneg n (b := twoPow ty.bits) (by omega)
    have hlt := Int.emod_lt_of_pos n (b := twoPow ty.bits) (by omega)
    omega

/-- A number in the range is left as it is. -/
theorem wrap_of_inRange (h : ty.InRange n) : ty.wrap n = n := by
  have hhalf := ty.twoPow_bits
  unfold InRange least greatest at h
  unfold wrap
  split <;> rename_i hsigned
  · simp only [hsigned, if_true] at h
    exact Int.bmod_eq_of_le (by omega) (by omega)
  · simp only [hsigned, Bool.false_eq_true, if_false] at h
    exact Int.emod_eq_of_lt h.1 (by omega)

theorem InRange.widen (h : narrow.InRange n) (hsigned : narrow.isSigned = ty.isSigned)
    (hbits : narrow.bits ≤ ty.bits) : ty.InRange n := by
  have hle : twoPow narrow.bits ≤ twoPow ty.bits := Nat.pow_le_pow_right (by decide) hbits
  have hnarrow := narrow.twoPow_bits
  have hty := ty.twoPow_bits
  unfold InRange least greatest at *
  rw [← hsigned]
  cases hsign : narrow.isSigned with
  | true =>
    simp only [hsign, if_true] at h ⊢
    omega
  | false =>
    simp only [hsign, Bool.false_eq_true, if_false] at h ⊢
    omega

/-- The low bits are kept. -/
theorem wrap_emod (ty : IntType) (n : Int) (h : k ≤ ty.bits) :
    ty.wrap n % twoPow k = n % twoPow k := by
  have hbits : ty.wrap n % twoPow ty.bits = n % twoPow ty.bits := by
    unfold wrap
    split
    · exact Int.bmod_emod
    · exact Int.emod_emod_of_dvd n (Int.dvd_refl _)
  rw [← Int.emod_emod_of_dvd _ (twoPow_dvd h), hbits, Int.emod_emod_of_dvd _ (twoPow_dvd h)]

theorem modEq_wrap (ty : IntType) (n : Int) : ty.wrap n ≡ n [ZMOD twoPow ty.bits] :=
  ty.wrap_emod n (Nat.le_refl _)

/-- Only the low bits count. -/
theorem wrap_congr (h : m % twoPow k = n % twoPow k) (hk : ty.bits ≤ k) :
    ty.wrap m = ty.wrap n := by
  have hbits : m % twoPow ty.bits = n % twoPow ty.bits := by
    rw [← Int.emod_emod_of_dvd m (twoPow_dvd hk), h, Int.emod_emod_of_dvd n (twoPow_dvd hk)]
  unfold wrap
  rw [← Int.emod_bmod m, ← Int.emod_bmod n, hbits]

theorem wrap_wrap (h : narrow.bits ≤ ty.bits) : narrow.wrap (ty.wrap n) = narrow.wrap n :=
  wrap_congr (ty.wrap_emod n h) (Nat.le_refl _)

end IntType

namespace Scalar

variable {ty : Scalar} {n : Int}

theorem wrapBits_pos (ty : Scalar) : 0 < ty.wrapBits := by
  cases ty <;> decide

/-- The numbers that are values of the type. -/
def range (ty : Scalar) : IntType :=
  ⟨ty.wrapBits, ty.isSigned, ty.wrapBits_pos⟩

theorem wrap_eq (ty : Scalar) (n : Int) : ty.wrap n = ty.range.wrap n := rfl

theorem fits_iff : ty.fits n = true ↔ ty.range.InRange n := by
  rw [fits, Bool.and_eq_true, decide_eq_true_eq, decide_eq_true_eq]
  rfl

/-- A value of the type is left as it is. -/
theorem wrap_of_fits (h : ty.fits n) : ty.wrap n = n :=
  IntType.wrap_of_inRange (fits_iff.1 h)

theorem fits_wrap (ty : Scalar) (n : Int) : ty.fits (ty.wrap n) :=
  fits_iff.2 (ty.range.inRange_wrap n)

theorem width_pos (ty : Scalar) : 0 < ty.width := by
  cases ty <;> decide

/-- The C type that values of the type are stored in. -/
def stored (ty : Scalar) : IntType :=
  ⟨ty.width, ty.isSigned, ty.width_pos⟩

theorem inRange_of_fits (h : ty.fits n) {wide : IntType} (hsigned : ty.isSigned = wide.isSigned)
    (hbits : ty.width ≤ wide.bits) : wide.InRange n := by
  have hwidth : ty.wrapBits ≤ ty.width := by cases ty <;> decide
  exact (fits_iff.1 h).widen hsigned (Nat.le_trans hwidth hbits)

end Scalar

end ScalarC
