import ScalarC.Proofs.Lowering.BlockDerivation

/-!
# Relations along lowering

What holds between the sessions before and after each primitive step of lowering, and is
reflexive and transitive, holds between the sessions before and after lowering a whole
block. A fact about the tables of a session is so shown for the primitive steps alone.
-/

namespace ScalarC

/-- A relation that contains the steps by which registers are handed out and read. -/
structure RegisterRelation (R : Session → Session → Prop) : Prop where
  refl (s : Session) : R s s
  trans {s s₁ s' : Session} : R s s₁ → R s₁ s' → R s s'
  defined (s : Session) (ty : Scalar) : R s (s.defined ty)
  reserved (s : Session) (ty : Scalar) : R s (s.reserved ty)
  markRead {s s' : Session} {r : Register} : Lower.markRead r s = .ok ((), s') → R s s'

/-- A relation that contains the steps by which expressions are lowered. -/
structure ExprRelation (scope : Scope) (R : Session → Session → Prop) : Prop
    extends RegisterRelation R where
  readLocal {s s' : Session} {name : String} {ty : Scalar} :
    Lower.readLocal name s = .ok (ty, s') → R s s'
  literal {s s' : Session} {value n : Int} {ty : Scalar} :
    scope.literalValue value ty s = .ok (n, s') → R s s'
  callee {s s' : Session} {callee : Callee} {symbol : Symbol} {signature : Signature} :
    scope.lowerCallee callee s = .ok ((symbol, signature), s') → R s s'

/-- A relation that contains the steps by which statements are lowered. -/
structure StepRelation (scope : Scope) (R : Session → Session → Prop) : Prop
    extends ExprRelation scope R where
  restored (s : Session) (slots : SlotSet) : R s (s.restored slots)
  assignLocal {s s' : Session} {name : String} :
    Lower.assignLocal name s = .ok ((), s') → R s s'
  declareLocal {s s' : Session} {name : String} {ty : Scalar} :
    Lower.declareLocal name ty s = .ok ((), s') → R s s'
  addString (s : Session) (text : String) (short : text.utf8ByteSize ≤ 65535) :
    R s { s with strings := s.strings ++ [text] }

variable {scope : Scope} {R : Session → Session → Prop} {s s' : Session}

namespace RegisterRelation

theorem bindsArgs (hR : RegisterRelation R) {sources bound : List Register}
    {types : List Scalar} {copies : List Op} (h : BindsArgs s sources types bound copies s') :
    R s s' := by
  induction h with
  | nil s => exact hR.refl s
  | cons readSource readCopy tail ih =>
    exact hR.trans (hR.markRead readSource)
      (hR.trans (hR.defined _ _) (hR.trans (hR.markRead readCopy) ih))

theorem resultRegister (hR : RegisterRelation R) {returnType : Option Scalar} {keep : Bool}
    {dest : Option Register} (h : Scope.resultRegister returnType keep s = .ok (dest, s')) :
    R s s' := by
  cases returnType with
  | none =>
    simp only [Scope.resultRegister, Lower.pure_ok] at h
    obtain ⟨_, rfl⟩ := h
    exact hR.refl s
  | some ty =>
    cases keep with
    | true =>
      simp only [Scope.resultRegister, if_true, Lower.bind_ok, Lower.define_ok, Lower.pure_ok] at h
      obtain ⟨_, _, ⟨_, rfl⟩, _, rfl⟩ := h
      exact hR.defined s ty
    | false =>
      simp only [Scope.resultRegister, Bool.false_eq_true, if_false, Lower.bind_ok,
        Lower.reserve_ok, Lower.pure_ok] at h
      obtain ⟨_, _, ⟨_, rfl⟩, _, rfl⟩ := h
      exact hR.reserved s ty

end RegisterRelation

namespace ExprRelation

theorem lowersExprs (hR : ExprRelation scope R) {es : List Expr} {registers : List Register}
    {ops : List Op} (h : LowersExprs scope s es registers ops s') : R s s' := by
  induction h with
  | nil s => exact hR.refl s
  | literal value tail ih => exact hR.trans (hR.literal value) (hR.trans (hR.defined _ _) ih)
  | constant found value tail ih => exact hR.trans (hR.literal value) (hR.trans (hR.defined _ _) ih)
  | var read tail ih => exact hR.trans (hR.readLocal read) (hR.trans (hR.defined _ _) ih)
  | binary operands readLeft readRight result tail ihOperands ih =>
    exact hR.trans ihOperands (hR.trans (hR.markRead readLeft)
      (hR.trans (hR.markRead readRight) (hR.trans (hR.defined _ _) ih)))
  | cast operand readSource tail ihOperand ih =>
    exact hR.trans ihOperand (hR.trans (hR.markRead readSource) (hR.trans (hR.defined _ _) ih))
  | call target arity arguments binding returns tail ihArguments ih =>
    exact hR.trans (hR.callee target) (hR.trans ihArguments
      (hR.trans (hR.bindsArgs binding) (hR.trans (hR.defined _ _) ih)))

theorem lowersReturn (hR : ExprRelation scope R) {value : Option Expr} {ops : List Op}
    (h : LowersReturn scope s value ops s') : R s s' := by
  cases h with
  | value declared value reads => exact hR.trans (hR.lowersExprs value) (hR.markRead reads)
  | nothing declared => exact hR.refl s

end ExprRelation

namespace StepRelation

theorem lowersSimple (hR : StepRelation scope R) {statement : Statement} {ops : List Op}
    (h : LowersSimple scope s statement ops s') : R s s' := by
  cases h with
  | declare declares => exact hR.trans (hR.declareLocal declares) (hR.reserved _ _)
  | declareInit declares value assigns reads =>
    exact hR.trans (hR.declareLocal declares) (hR.trans (hR.reserved _ _)
      (hR.trans (hR.lowersExprs value) (hR.trans (hR.assignLocal assigns) (hR.markRead reads))))
  | assign known value assigns reads =>
    exact hR.trans (hR.lowersExprs value) (hR.trans (hR.assignLocal assigns) (hR.markRead reads))
  | eval noCall value => exact hR.lowersExprs value
  | evalCall target arity arguments binding dropped =>
    exact hR.trans (hR.callee target) (hR.trans (hR.lowersExprs arguments)
      (hR.trans (hR.bindsArgs binding) (hR.resultRegister dropped)))
  | printValue value typed printer reads =>
    exact hR.trans (hR.lowersExprs value) (hR.markRead reads)
  | printChar value reads => exact hR.trans (hR.lowersExprs value) (hR.markRead reads)
  | printNewline => exact hR.refl s
  | printText short => exact hR.addString s _ short

/-- The relation holds along a whole block. -/
theorem lowersBlock (hR : StepRelation scope R) {block : List Statement} {flow : Flow}
    {ops : List Op} (h : LowersBlock scope s block flow ops s') : R s s' := by
  induction h with
  | nil s => exact hR.refl s
  | simple first tail ih => exact hR.trans (hR.lowersSimple first) ih
  | ret last => exact hR.lowersReturn last
  | branchReturns condition reads thenArm elseArm ihThen ihElse =>
    exact hR.trans (hR.lowersExprs condition) (hR.trans (hR.markRead reads)
      (hR.trans ihThen (hR.trans (hR.restored _ _) ihElse)))
  | branch condition reads thenArm elseArm joins tail ihThen ihElse ih =>
    exact hR.trans (hR.lowersExprs condition) (hR.trans (hR.markRead reads)
      (hR.trans ihThen (hR.trans (hR.restored _ _)
        (hR.trans ihElse (hR.trans (hR.restored _ _) ih)))))
  | loop condition reads inner tail ihInner ih =>
    exact hR.trans (hR.lowersExprs condition) (hR.trans (hR.markRead reads)
      (hR.trans ihInner (hR.trans (hR.restored _ _) ih)))

end StepRelation

end ScalarC
