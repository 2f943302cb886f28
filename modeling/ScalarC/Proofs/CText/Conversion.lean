import ScalarC.Proofs.CText.Arithmetic

/-!
# Conversions and constants are exact

The C expression of a conversion moves the binary point in 64 bits, by a power of two that
the macros of the preamble give, and narrows the result. Its value is the number at the new
binary point, truncated toward zero where bits are dropped, and wrapped to the target type.
A constant is spelled so that each number in its text fits a 32-bit word, also for the least
word, whose absolute value does not.
-/

namespace ScalarC

/-! ## The macros of the preamble -/

namespace Preamble

/-- The name and the number of a line that defines a macro as a number. -/
def numberMacro? (line : String) : Option (String × Nat) :=
  if "#define ".toList.isPrefixOf line.toList then
    match line.toList.splitOn ' ' with
    | [_, name, digits] => (Numeral.value? 10 digits).map fun n => (String.ofList name, n)
    | _ => none
  else none

/-- The macros that the lines define as numbers. -/
def numberMacros (lines : List String) : List (String × Nat) :=
  lines.filterMap numberMacro?

theorem numberMacros_types : numberMacros types
    = fixedTypes.filterMap fun ty => ty.fractionBits?.map fun bits => (ty.shiftName, bits) := by
  decide +kernel

end Preamble

/-- The shift macros stand for the numbers that the text of the preamble gives them. -/
theorem shiftMacro?_eq_lookup (name : String) :
    shiftMacro? name = (Preamble.numberMacros Preamble.types).lookup name := by
  rw [Preamble.numberMacros_types, shiftMacro?]
  have hbits : ∀ ty ∈ Preamble.fixedTypes, ty.fractionBits?.isSome = true := by decide
  generalize Preamble.fixedTypes = types at hbits
  induction types with
  | nil => rfl
  | cons ty types ih =>
    obtain ⟨bits, hty⟩ := Option.isSome_iff_exists.1 (hbits ty List.mem_cons_self)
    have hrest := ih fun ty hmem => hbits ty (List.mem_cons_of_mem _ hmem)
    by_cases hname : ty.shiftName = name
    · simp [hname, hty]
    · have hother : (name == ty.shiftName) = false := by simpa using Ne.symm hname
      simp [hname, hty, List.lookup_cons, hother, hrest]

/-! ## Moving the binary point -/

/-- A number of one type at the binary point of another. Dropped bits are truncated toward
zero. -/
def Scalar.rescale (source target : Scalar) (a : Int) : Int :=
  match source.fractionBits?, target.fractionBits? with
  | none, none => a
  | none, some t => a * twoPow t
  | some s, none => a.tdiv (twoPow s)
  | some s, some t => if s ≤ t then a * twoPow (t - s) else a.tdiv (twoPow (s - t))

theorem Scalar.bounds_of_fits {ty : Scalar} {a : Int} (h : ty.fits a) :
    -2 ^ 31 ≤ a ∧ a < 2 ^ 32 := by
  have hrange := inRange_word h
  unfold word at hrange
  split at hrange
  · rw [IntType.inRange_int] at hrange
    omega
  · rw [IntType.inRange_uint] at hrange
    omega

/-- The C type of a scalar type represents its values. -/
theorem Scalar.wrap_stored {ty : Scalar} {a : Int} (h : ty.fits a) : ty.stored.wrap a = a :=
  IntType.wrap_of_inRange (inRange_of_fits h rfl (Nat.le_refl _))

namespace CExpr

variable {vars : String → Option CValue} {e shift : CExpr} {source target : Scalar} {a : Int}
  {f : Nat} {x : String}

/-- A number of a scalar type, moved up in 64 bits. -/
theorem eval_scaleUp (h : Holds vars e source a) (hf : f ≤ 16)
    (hshift : shift.eval vars = some (IntType.int.value f)) :
    (binary .mul (cast .int64 e) (scaledOne shift)).eval vars
      = some (IntType.int64.value (a * twoPow f)) := by
  have ha := Scalar.bounds_of_fits h.fits
  have hpow : twoPow f ≤ 2 ^ 16 := Nat.pow_le_pow_right (by decide) hf
  have habs : (a * twoPow f).natAbs ≤ 2 ^ 32 * 2 ^ 16 := by
    rw [Int.natAbs_mul]
    exact Nat.mul_le_mul (by omega) (by omega)
  rw [eval_binary .mul (h.cast .int64) (eval_scaledOne hf hshift)]
  exact CValue.apply_represented (.inr rfl) (by decide) (IntType.inRange_int64.2 (by omega))
    (IntType.inRange_int64.2 (by omega))
    (IntType.inRange_int64.2 (by show _ ≤ a * twoPow f ∧ a * twoPow f < _; omega))

/-- A number of a scalar type, moved down in 64 bits. -/
theorem eval_scaleDown (h : Holds vars e source a) (hf : f ≤ 16)
    (hshift : shift.eval vars = some (IntType.int.value f)) :
    (binary .div (cast .int64 e) (scaledOne shift)).eval vars
      = some (IntType.int64.value (a.tdiv (twoPow f))) := by
  have ha := Scalar.bounds_of_fits h.fits
  have hpos := IntType.twoPow_pos f
  exact eval_ratio (h.cast .int64) (eval_scaledOne hf hshift) (by omega) (inRange_twoPow hf)
    (by omega)

/-- The difference of two shift macros. -/
theorem eval_shiftDifference {s t : Nat} (hs : source.fractionBits? = some s)
    (ht : target.fractionBits? = some t) (hle : s ≤ t) :
    (paren (binary .sub (name target.shiftName) (name source.shiftName))).eval vars
      = some (IntType.int.value (t - s : Nat)) := by
  have hbits := fractionBits?_le ht
  have hexact : Operator.exact .sub t s = (t - s : Nat) := by
    show (t : Int) - s = _
    omega
  rw [eval, eval_binary .sub (eval_shiftName vars ht) (eval_shiftName vars hs),
    CValue.apply_represented (.inl rfl) (by decide) (inRange_count hbits)
      (inRange_count (fractionBits?_le hs)) (hexact ▸ inRange_count (by omega)), hexact]

/-- The value of a conversion between two types. -/
theorem eval_convert (h : Holds vars e source a) (hne : source ≠ target) :
    (convert source target e).eval vars
      = some (target.stored.value (target.wrap (source.rescale target a))) := by
  unfold convert Scalar.rescale
  rw [if_neg hne]
  cases hs : source.fractionBits? with
  | none =>
    cases ht : target.fractionBits? with
    | none => exact eval_narrow target (by rw [source.bits_word]) h.ordered
    | some t =>
      exact eval_narrow target (by decide)
        (eval_scaleUp h (fractionBits?_le ht) (eval_shiftName vars ht))
  | some s =>
    cases ht : target.fractionBits? with
    | none =>
      exact eval_narrow target (by decide)
        (eval_scaleDown h (fractionBits?_le hs) (eval_shiftName vars hs))
    | some t =>
      have hs' := fractionBits?_le hs
      have ht' := fractionBits?_le ht
      by_cases hle : s ≤ t
      · simp only [hle, if_true]
        exact eval_narrow target (by decide)
          (eval_scaleUp h (by omega) (eval_shiftDifference hs ht hle))
      · simp only [hle, if_false]
        exact eval_narrow target (by decide)
          (eval_scaleDown h (by omega) (eval_shiftDifference ht hs (by omega)))

theorem spelled_convert (h : Spelled e) (operand : e.isOperand) :
    Spelled (convert source target e) := by
  have hcast : ∀ ty, Spelled (cast ty e) := fun ty => .cast ty h operand
  have hone : ∀ ty : Scalar, Spelled (scaledOne (name ty.shiftName)) :=
    fun ty => spelled_scaledOne (spelled_shiftName ty) rfl
  have hdifference : ∀ ty ty' : Scalar,
      Spelled (scaledOne (paren (binary .sub (name ty.shiftName) (name ty'.shiftName)))) :=
    fun ty ty' => spelled_scaledOne
      (.paren (.binary .sub (spelled_shiftName ty) (spelled_shiftName ty') rfl rfl)) rfl
  unfold convert
  split
  · exact h
  · split
    · exact spelled_narrow target (hcast _)
    · exact spelled_narrow target (.binary .mul (hcast _) (hone _) rfl rfl)
    · exact spelled_narrow target (.binary .div (hcast _) (hone _) rfl rfl)
    · split
      · exact spelled_narrow target (.binary .mul (hcast _) (hdifference _ _) rfl rfl)
      · exact spelled_narrow target (.binary .div (hcast _) (hdifference _ _) rfl rfl)

/-- The value of the text of a conversion. -/
theorem value_convert (target : Scalar) (hx : Declares vars x source a) :
    ∃ v, valueOf? vars (convert source target (name x)).text = some v
      ∧ v.ty = target.stored
      ∧ v.raw = if source = target then a else target.wrap (source.rescale target a) := by
  have hspelled : Spelled (convert source target (name x)) :=
    spelled_convert (.leaf hx.isVariable.isLeaf) rfl
  rw [valueOf?, hspelled.read?_text, Option.bind_some]
  by_cases hsame : source = target
  · subst hsame
    rw [convert, if_pos rfl, if_pos rfl]
    exact ⟨_, hx.holds_name.eval, rfl, Scalar.wrap_stored hx.fits⟩
  · rw [if_neg hsame]
    exact ⟨_, eval_convert hx.holds_name hsame, rfl, Scalar.wrap_stored (Scalar.fits_wrap _ _)⟩

/-! ## Constants -/

/-- The type of an integer constant that fits 32 bits. -/
def wordType (isUnsigned : Bool) : IntType := if isUnsigned then .uint else .int

/-- Whether an expression is constant, and each number in it fits an `int`, or an
`unsigned int` if it has the suffix. -/
def isConstant : CExpr → Bool
  | name _ => false
  | decimal n isUnsigned | hexadecimal n isUnsigned => decide ((wordType isUnsigned).InRange n)
  | negate e | cast _ e | paren e => e.isConstant
  | binary _ lhs rhs => lhs.isConstant && rhs.isConstant

theorem eval_decimal {n : Nat} {isUnsigned : Bool} (h : (wordType isUnsigned).InRange n) :
    (decimal n isUnsigned).eval vars = some ((wordType isUnsigned).value n) := by
  cases isUnsigned with
  | false =>
    have hword : IntType.int.InRange n := h
    simp [eval, constant?, decimalTypes, hword, wordType]
  | true =>
    have hword : IntType.uint.InRange n := h
    simp [eval, constant?, decimalTypes, hword, wordType]

theorem eval_negate {ty : IntType} (hty : 32 ≤ ty.bits) (h : e.eval vars = some (ty.value a))
    (ha : ty.InRange a) (hneg : ty.InRange (-a)) :
    (negate e).eval vars = some (ty.value (-a)) := by
  have hpromote : (ty.value a).promote = ty.value a := CValue.promote_of_wide hty
  simp [eval, h, hpromote, IntType.wrap_of_inRange ha, IntType.result?_of_inRange hneg]

/-- A constant is spelled in numbers that fit, and has its value. -/
structure LiteralOf (e : CExpr) (a : Int) : Prop where
  isConstant : e.isConstant = true
  spelled : Spelled e
  eval : ∃ ty : IntType, ty.InRange a ∧ ∀ vars, e.eval vars = some (ty.value a)

theorem literalOf_least : LiteralOf (literal (-2147483648)) (-2147483648) where
  isConstant := by decide
  spelled := .paren (.binary .sub (.negate (.leaf (isLeaf_decimal _ _)) rfl rfl)
    (.leaf (isLeaf_decimal _ _)) rfl rfl)
  eval := ⟨.int, by decide, fun _ => rfl⟩

theorem literalOf_decimal {n : Nat} {isUnsigned : Bool} (h : (wordType isUnsigned).InRange n) :
    LiteralOf (decimal n isUnsigned) n where
  isConstant := decide_eq_true h
  spelled := .leaf (isLeaf_decimal _ _)
  eval := ⟨_, h, fun _ => eval_decimal h⟩

theorem literalOf_negate {n : Nat} (h : IntType.int.InRange n) :
    LiteralOf (negate (decimal n false)) (-n) := by
  have hneg : IntType.int.InRange (-n) := by
    rw [IntType.inRange_int] at h ⊢
    omega
  exact {
    isConstant := decide_eq_true h
    spelled := .negate (.leaf (isLeaf_decimal _ _)) rfl rfl
    eval := ⟨.int, hneg, fun _ => eval_negate (by decide) (eval_decimal h) h hneg⟩ }

theorem literalOf_literal (hleast : -2 ^ 31 ≤ a) (hgreatest : a < 2 ^ 32) :
    LiteralOf (literal a) a := by
  by_cases hword : a = -2147483648
  · subst hword
    exact literalOf_least
  · simp only [literal, hword, if_false]
    by_cases hlarge : 2147483647 < a
    · have hn : (a.toNat : Int) = a := Int.toNat_of_nonneg (by omega)
      have hrange : (wordType true).InRange a.toNat := IntType.inRange_uint.2 (by omega)
      simpa only [hlarge, if_true, hn] using literalOf_decimal hrange
    · by_cases hneg : a < 0
      · have hn : -((-a).toNat : Int) = a := by omega
        have hrange : IntType.int.InRange (-a).toNat := IntType.inRange_int.2 (by omega)
        simpa only [hlarge, hneg, if_true, if_false, hn] using literalOf_negate hrange
      · have hn : (a.toNat : Int) = a := Int.toNat_of_nonneg (by omega)
        have hrange : (wordType false).InRange a.toNat := IntType.inRange_int.2 (by omega)
        simpa only [hlarge, hneg, if_false, hn] using literalOf_decimal hrange

/-! ## Exactness -/

/-- Conversions and constants are exact. The text of a conversion of a variable, read as C, has
a value: the number itself if the types are the same, and otherwise the number at the binary
point of the target, wrapped to it. The shift macros in it are those that the preamble defines,
and they are the fraction bits of the types. The text of a value of a type is a constant
expression of that value, in which every number fits its type. -/
theorem convert_literal_exact :
    (∀ name, shiftMacro? name = (Preamble.numberMacros Preamble.types).lookup name)
    ∧ (∀ ty : Scalar,
      (Preamble.numberMacros Preamble.types).lookup ty.shiftName = ty.fractionBits?)
    ∧ (∀ vars x (source target : Scalar) a, Declares vars x source a →
      ∃ v, valueOf? vars (convert source target (name x)).text = some v
        ∧ v.ty = target.stored
        ∧ v.raw = if source = target then a else target.wrap (source.rescale target a))
    ∧ ∀ (ty : Scalar) a, ty.fits a →
      ∃ e, read? (literal a).text = some e ∧ e.isConstant = true
        ∧ ∀ vars, ∃ v, e.eval vars = some v ∧ v.raw = a := by
  refine ⟨shiftMacro?_eq_lookup, ?_, ?_, ?_⟩
  · intro ty
    rw [← shiftMacro?_eq_lookup, shiftMacro?_shiftName]
  · intro vars x source target a hx
    exact value_convert target hx
  · intro ty a hfits
    have hbounds := Scalar.bounds_of_fits hfits
    have hliteral := literalOf_literal hbounds.1 hbounds.2
    obtain ⟨word, hrange, hvalue⟩ := hliteral.eval
    exact ⟨literal a, hliteral.spelled.read?_text, hliteral.isConstant,
      fun vars => ⟨_, hvalue vars, IntType.wrap_of_inRange hrange⟩⟩

/-- `x` is the least number of a type. -/
def leastOf (ty : Scalar) (s : String) : Option CValue :=
  if s = "x" then some (ty.stored.value ty.range.least) else none

/-- The least `f16_8` converts to the least `i24`, and the least word is a constant. -/
theorem convert_literal_exact_least :
    (∃ v, valueOf? (leastOf .f16_8)
        ("(i24)((int32_t)(((uint32_t)((int64_t)x / ((int64_t)1 << F16_8_SHIFT)) & 0xFFFFFFu)"
          ++ " ^ 0x800000u) - 0x800000)") = some v
      ∧ v.ty = Scalar.i24.stored ∧ v.raw = -2 ^ 23)
    ∧ ∃ e, read? "(-2147483647 - 1)" = some e ∧ e.isConstant = true
      ∧ ∀ vars, ∃ v, e.eval vars = some v ∧ v.raw = -2 ^ 31 := by
  obtain ⟨_, _, hconvert, hliteral⟩ := convert_literal_exact
  have hx : Declares (leastOf .f16_8) "x" .f16_8 (-2 ^ 31) :=
    ⟨⟨by decide, by decide, by decide⟩, by decide, ⟨_, rfl, rfl, by decide⟩, by decide⟩
  have htext : (convert .f16_8 .i24 (name "x")).text
      = "(i24)((int32_t)(((uint32_t)((int64_t)x / ((int64_t)1 << F16_8_SHIFT)) & 0xFFFFFFu)"
        ++ " ^ 0x800000u) - 0x800000)" := by decide +kernel
  have hleast : (literal (-2 ^ 31)).text = "(-2147483647 - 1)" := by decide +kernel
  obtain ⟨v, hvalue, hty, hraw⟩ := hconvert _ "x" .f16_8 .i24 _ hx
  refine ⟨⟨v, htext ▸ hvalue, hty, hraw.trans (by decide)⟩, ?_⟩
  exact hleast ▸ hliteral .i32 (-2 ^ 31) (by decide)

end CExpr

end ScalarC
