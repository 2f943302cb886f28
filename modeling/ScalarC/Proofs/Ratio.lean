import ScalarC.Proofs.CText.Value
import ScalarC.Source.Expr

/-!
# Fixed-point literals

The literal of a ratio is the scaled numerator divided by the denominator, truncated toward
zero, where the scaled numerator is a 64-bit word. The division is not checked: the least word
divided by minus one is no word, and there the computation faults. It faults nowhere else.
-/

namespace ScalarC

/-! ## Quotients of words -/

theorem isWord64_iff {n : Int} : isWord64 n = true ↔ IntType.int64.InRange n := by
  rw [isWord64, Bool.and_eq_true, decide_eq_true_eq, decide_eq_true_eq, IntType.inRange_int64]
  omega

/-- A quotient of words is a word, but for the least one divided by minus one. -/
theorem isWord64_tdiv {m n : Int} (hm : isWord64 m = true) (hn : n ≠ 0) :
    isWord64 (m.tdiv n) = false ↔ m = -2 ^ 63 ∧ n = -1 := by
  constructor
  · intro h
    by_contra hleast
    have hword := IntType.inRange_tdiv rfl (isWord64_iff.1 hm) hn hleast
    rw [isWord64_iff.2 hword] at h
    cases h
  · rintro ⟨rfl, rfl⟩
    rfl

theorem toInt_ofInt_of_isWord64 {n : Int} (h : isWord64 n = true) : (Int64.ofInt n).toInt = n := by
  rw [isWord64_iff, IntType.inRange_int64] at h
  exact Int64.toInt_ofInt_of_le h.1 h.2

/-! ## Raw values -/

namespace FixedPoint

variable {format : FixedPoint}

/-- The numerator at the binary point of the layout. -/
def scaled (format : FixedPoint) (numerator : Int64) : Int :=
  numerator.toInt * 2 ^ format.fractionBits

/-- The raw value of a ratio, by the outcomes of the product and of the quotient. -/
theorem rawOfRatio_eq (h : format.fractionBits < 63) (numerator denominator : Int64) :
    format.rawOfRatio numerator denominator =
      if denominator = 0 ∨ isWord64 (format.scaled numerator) = false then .ok none
      else if isWord64 ((format.scaled numerator).tdiv denominator.toInt) = false then
        .error .quotientOverflow
      else .ok (some (.ofInt ((format.scaled numerator).tdiv denominator.toInt))) := by
  have hscale : format.scale = .ok (2 ^ format.fractionBits) := by
    simp [scale, h, twoPow]
  simp only [rawOfRatio, hscale, bind, Except.bind, pure, Except.pure]
  by_cases hzero : denominator = 0
  · simp [hzero]
  by_cases hword : isWord64 (format.scaled numerator) = true
  · by_cases hquotient : isWord64 ((format.scaled numerator).tdiv denominator.toInt) = true
    · simp_all [scaled]
    · simp_all [scaled, throw, throwThe, MonadExceptOf.throw]
  · simp_all [scaled]

end FixedPoint

theorem Scalar.fractionBits_lt {ty : Scalar} {format : FixedPoint}
    (h : ty.fixedPoint? = some format) : format.fractionBits < 63 := by
  cases ty <;> simp [fixedPoint?] at h <;> subst h <;> decide

namespace Literal

variable {ty : Scalar} {format : FixedPoint} {numerator denominator : Int64}

/-- There is no literal, or the quotient overflows, or it is the value of the literal. -/
theorem ofRatio_cases (h : ty.fixedPoint? = some format) (numerator denominator : Int64) :
    ((denominator = 0 ∨ isWord64 (format.scaled numerator) = false)
      ∧ ofRatio numerator denominator ty = .ok none)
    ∨ (denominator ≠ 0 ∧ isWord64 (format.scaled numerator) = true)
      ∧ ((isWord64 ((format.scaled numerator).tdiv denominator.toInt) = false
          ∧ ofRatio numerator denominator ty = .error .quotientOverflow)
        ∨ (isWord64 ((format.scaled numerator).tdiv denominator.toInt) = true
          ∧ ofRatio numerator denominator ty
            = .ok (some ⟨.ofInt ((format.scaled numerator).tdiv denominator.toInt), ty⟩))) := by
  simp only [ofRatio, h, FixedPoint.rawOfRatio_eq (Scalar.fractionBits_lt h)]
  by_cases hnone : denominator = 0 ∨ isWord64 (format.scaled numerator) = false
  · exact .inl ⟨hnone, by rw [if_pos hnone]; rfl⟩
  · refine .inr ⟨by simpa using hnone, ?_⟩
    rw [if_neg hnone]
    by_cases hfault : isWord64 ((format.scaled numerator).tdiv denominator.toInt) = false
    · exact .inl ⟨hfault, by rw [if_pos hfault]; rfl⟩
    · exact .inr ⟨by simpa using hfault, by rw [if_neg hfault]; rfl⟩

theorem isWord64_quotient (hzero : denominator ≠ 0)
    (hword : isWord64 (format.scaled numerator) = true) :
    isWord64 ((format.scaled numerator).tdiv denominator.toInt) = false ↔
      format.scaled numerator = -2 ^ 63 ∧ denominator = -1 := by
  rw [isWord64_tdiv hword fun heq => hzero (Int64.toInt_inj.1 heq), ← Int64.toInt_inj]
  rfl

theorem ofRatio_eq_error (h : ty.fixedPoint? = some format) {fault : ArithmeticFault} :
    ofRatio numerator denominator ty = .error fault ↔
      fault = .quotientOverflow ∧ format.scaled numerator = -2 ^ 63 ∧ denominator = -1 := by
  constructor
  · intro hresult
    rcases ofRatio_cases h numerator denominator with
      ⟨_, heq⟩ | ⟨⟨hzero, hword⟩, ⟨hfault, heq⟩ | ⟨_, heq⟩⟩
    · cases hresult.symm.trans heq
    · cases hresult.symm.trans heq
      exact ⟨rfl, (isWord64_quotient hzero hword).1 hfault⟩
    · cases hresult.symm.trans heq
  · rintro ⟨rfl, hleast, rfl⟩
    have hword : isWord64 (format.scaled numerator) = true := hleast ▸ rfl
    rcases ofRatio_cases h numerator (-1) with ⟨hnone, _⟩ | ⟨⟨hzero, _⟩, ⟨_, heq⟩ | ⟨hquotient, _⟩⟩
    · rw [hword] at hnone
      exact absurd hnone (by decide)
    · exact heq
    · rw [(isWord64_quotient hzero hword).2 ⟨hleast, rfl⟩] at hquotient
      cases hquotient

theorem ofRatio_eq_none (h : ty.fixedPoint? = some format) :
    ofRatio numerator denominator ty = .ok none ↔
      denominator = 0 ∨ isWord64 (format.scaled numerator) = false := by
  rcases ofRatio_cases h numerator denominator with
    ⟨hnone, heq⟩ | ⟨⟨hzero, hword⟩, ⟨_, heq⟩ | ⟨_, heq⟩⟩
  · simp [heq, hnone]
  · simp [heq, hzero, hword]
  · simp [heq, hzero, hword]

theorem ofRatio_eq_some (h : ty.fixedPoint? = some format) {lit : Literal} :
    ofRatio numerator denominator ty = .ok (some lit) ↔
      denominator ≠ 0 ∧ isWord64 (format.scaled numerator) = true
        ∧ isWord64 ((format.scaled numerator).tdiv denominator.toInt) = true
        ∧ lit.ty = ty ∧ lit.value.toInt = (format.scaled numerator).tdiv denominator.toInt := by
  rcases ofRatio_cases h numerator denominator with
    ⟨hnone, heq⟩ | ⟨⟨hzero, hword⟩, ⟨hfault, heq⟩ | ⟨hquotient, heq⟩⟩
  · rcases hnone with rfl | hword
    · simp [heq]
    · simp [heq, hword]
  · simp [heq, hfault]
  · obtain ⟨value, ty'⟩ := lit
    simp only [heq, Except.ok.injEq, Option.some.injEq, mk.injEq, ← Int64.toInt_inj,
      toInt_ofInt_of_isWord64 hquotient, hzero, hword, hquotient, ne_eq, not_false_eq_true, true_and]
    rw [and_comm, eq_comm (a := ty), eq_comm (b := value.toInt)]

/-- Literals of ratios are exact, or there are none, but for one product that faults. For a type
with `f` fraction bits there is no literal if the denominator is zero or the scaled numerator
is no word. The quotient is no word, and the computation faults, exactly if the scaled
numerator is the least word and the denominator minus one. For all other words the literal has
the truncated quotient as its value. -/
theorem ofRatio_faults_iff {ty : Scalar} {f : Nat} (h : ty.fractionBits? = some f)
    (numerator denominator : Int64) :
    (∀ fault, ofRatio numerator denominator ty = .error fault ↔
      fault = .quotientOverflow ∧ numerator.toInt * 2 ^ f = -2 ^ 63 ∧ denominator = -1)
    ∧ (ofRatio numerator denominator ty = .ok none ↔
      denominator = 0 ∨ isWord64 (numerator.toInt * 2 ^ f) = false)
    ∧ (∀ lit, ofRatio numerator denominator ty = .ok (some lit) ↔
      denominator ≠ 0 ∧ isWord64 (numerator.toInt * 2 ^ f) = true
        ∧ isWord64 ((numerator.toInt * 2 ^ f).tdiv denominator.toInt) = true
        ∧ lit.ty = ty ∧ lit.value.toInt = (numerator.toInt * 2 ^ f).tdiv denominator.toInt)
    ∧ (denominator ≠ 0 → isWord64 (numerator.toInt * 2 ^ f) = true →
      (isWord64 ((numerator.toInt * 2 ^ f).tdiv denominator.toInt) = false ↔
        numerator.toInt * 2 ^ f = -2 ^ 63 ∧ denominator = -1)) := by
  obtain ⟨format, hformat, rfl⟩ := Option.map_eq_some_iff.1 h
  exact ⟨fun fault => ofRatio_eq_error hformat, ofRatio_eq_none hformat,
    fun lit => ofRatio_eq_some hformat, isWord64_quotient⟩

/-- One third and minus two thirds in a layout with eight fraction bits, and the ratio whose
scaled numerator is the least word, which is read with another denominator only. -/
theorem ofRatio_faults_iff_thirds :
    Scalar.f8_8.fractionBits? = some 8
      ∧ ofRatio 1 3 .f8_8 = .ok (some ⟨85, .f8_8⟩)
      ∧ ofRatio (-2) 3 .f8_8 = .ok (some ⟨-170, .f8_8⟩)
      ∧ ofRatio (-36028797018963968) 1 .f8_8 = .ok (some ⟨-9223372036854775808, .f8_8⟩)
      ∧ ofRatio 36028797018963968 1 .f8_8 = .ok none := by
  have hbits : Scalar.f8_8.fractionBits? = some 8 := rfl
  refine ⟨hbits, ?_, ?_, ?_, ?_⟩
  · exact ((ofRatio_faults_iff hbits 1 3).2.2.1 _).2 (by decide)
  · exact ((ofRatio_faults_iff hbits (-2) 3).2.2.1 _).2 (by decide)
  · exact ((ofRatio_faults_iff hbits (-36028797018963968) 1).2.2.1 _).2 (by decide)
  · exact (ofRatio_faults_iff hbits 36028797018963968 1).2.1.2 (by decide)

/-- The least word divided by minus one is no word. There is no literal for it, but the
computation does not say so: it faults. -/
theorem ofRatio_least_faults :
    isWord64 ((-36028797018963968 * 2 ^ 8 : Int).tdiv (-1)) = false
      ∧ ofRatio (-36028797018963968) (-1) .f8_8 = .error .quotientOverflow := by
  decide

end Literal

end ScalarC
