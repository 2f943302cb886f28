import ScalarC.Proofs.Lowering.Steps

/-!
# Corresponding lowerings

Two runs of lowering are compared step by step: under different settings, with what
different units share, or with calls that are spelled in another way. The runs take the same
steps except where they check a literal, look up a callee or refuse. So a relation between
steps that is kept by sequencing, and holds at those places, holds of the lowerings of whole
bodies.
-/

namespace ScalarC

/-! ## Source text up to callees -/

section Respells

variable (swap : Callee → Callee → Prop)

mutual

/-- The same expression, except that a call may have another callee that `swap` allows. -/
inductive Expr.Respells : Expr → Expr → Prop where
  | literal (lit : Literal) : Respells (.literal lit) (.literal lit)
  | var (name : String) : Respells (.var name) (.var name)
  | constant (name : String) : Respells (.constant name) (.constant name)
  | binary (op : Operator) {lhs lhs' rhs rhs' : Expr} (left : Respells lhs lhs')
      (right : Respells rhs rhs') : Respells (.binary op lhs rhs) (.binary op lhs' rhs')
  | cast {value value' : Expr} (operand : Respells value value') (ty : Scalar) :
      Respells (.cast value ty) (.cast value' ty)
  | call {callee callee' : Callee} {args args' : List Expr} (target : swap callee callee')
      (arguments : RespellsAll args args') : Respells (.call callee args) (.call callee' args')

/-- The same expressions in the same order, up to callees. -/
inductive Expr.RespellsAll : List Expr → List Expr → Prop where
  | nil : RespellsAll [] []
  | cons {e e' : Expr} {rest rest' : List Expr} (first : Expr.Respells e e')
      (others : RespellsAll rest rest') : RespellsAll (e :: rest) (e' :: rest')

end

inductive Print.Respells : Print → Print → Prop where
  | value {e e' : Expr} (operand : e.Respells swap e') : Respells (.value e) (.value e')
  | char {e e' : Expr} (operand : e.Respells swap e') : Respells (.char e) (.char e')
  | newline : Respells .newline .newline
  | text (s : String) : Respells (.text s) (.text s)

mutual

/-- The same statement, except that calls may have other callees that `swap` allows. -/
inductive Statement.Respells : Statement → Statement → Prop where
  | declare (name : String) (ty : Scalar) {init init' : Option Expr}
      (value : Option.Rel (Expr.Respells swap) init init') :
      Respells (.declare name ty init) (.declare name ty init')
  | assign (name : String) {e e' : Expr} (value : e.Respells swap e') :
      Respells (.assign name e) (.assign name e')
  | eval {e e' : Expr} (value : e.Respells swap e') : Respells (.eval e) (.eval e')
  | ret {value value' : Option Expr} (result : Option.Rel (Expr.Respells swap) value value') :
      Respells (.ret value) (.ret value')
  | branch {c c' : Expr} {thenBlock thenBlock' elseBlock elseBlock' : List Statement}
      (condition : c.Respells swap c') (thenArm : RespellsAll thenBlock thenBlock')
      (elseArm : RespellsAll elseBlock elseBlock') :
      Respells (.branch c thenBlock elseBlock) (.branch c' thenBlock' elseBlock')
  | loop {c c' : Expr} {body body' : List Statement} (condition : c.Respells swap c')
      (inner : RespellsAll body body') : Respells (.loop c body) (.loop c' body')
  | print {what what' : Print} (output : what.Respells swap what') :
      Respells (.print what) (.print what')

/-- The same statements in the same order, up to callees. -/
inductive Statement.RespellsAll : List Statement → List Statement → Prop where
  | nil : RespellsAll [] []
  | cons {statement statement' : Statement} {rest rest' : List Statement}
      (first : Statement.Respells statement statement') (others : RespellsAll rest rest') :
      RespellsAll (statement :: rest) (statement' :: rest')

end

/-- The same function, except that the calls in its body may have other callees. -/
structure SourceFunction.Respells (function function' : SourceFunction) : Prop where
  same : function' = { function with body := function'.body }
  body : Statement.RespellsAll swap function.body function'.body

end Respells

section Refl

variable {swap : Callee → Callee → Prop}

mutual

theorem Expr.Respells.refl (hswap : ∀ callee, swap callee callee) :
    (e : Expr) → e.Respells swap e
  | .literal lit => .literal lit
  | .var name => .var name
  | .constant name => .constant name
  | .binary op lhs rhs =>
    .binary op (Expr.Respells.refl hswap lhs) (Expr.Respells.refl hswap rhs)
  | .cast value ty => .cast (Expr.Respells.refl hswap value) ty
  | .call callee args => .call (hswap callee) (Expr.RespellsAll.refl hswap args)

theorem Expr.RespellsAll.refl (hswap : ∀ callee, swap callee callee) :
    (es : List Expr) → Expr.RespellsAll swap es es
  | [] => .nil
  | e :: rest => .cons (Expr.Respells.refl hswap e) (Expr.RespellsAll.refl hswap rest)

end

theorem Expr.Respells.refl_option (hswap : ∀ callee, swap callee callee) (value : Option Expr) :
    Option.Rel (Expr.Respells swap) value value := by
  cases value with
  | none => exact .none
  | some e => exact .some (.refl hswap e)

theorem Print.Respells.refl (hswap : ∀ callee, swap callee callee) (what : Print) :
    what.Respells swap what := by
  cases what with
  | value e => exact .value (.refl hswap e)
  | char e => exact .char (.refl hswap e)
  | newline => exact .newline
  | text s => exact .text s

mutual

theorem Statement.Respells.refl (hswap : ∀ callee, swap callee callee) :
    (statement : Statement) → statement.Respells swap statement
  | .declare name ty init => .declare name ty (Expr.Respells.refl_option hswap init)
  | .assign name e => .assign name (.refl hswap e)
  | .eval e => .eval (.refl hswap e)
  | .ret value => .ret (Expr.Respells.refl_option hswap value)
  | .branch c thenBlock elseBlock =>
    .branch (.refl hswap c) (Statement.RespellsAll.refl hswap thenBlock)
      (Statement.RespellsAll.refl hswap elseBlock)
  | .loop c body => .loop (.refl hswap c) (Statement.RespellsAll.refl hswap body)
  | .print what => .print (.refl hswap what)

theorem Statement.RespellsAll.refl (hswap : ∀ callee, swap callee callee) :
    (block : List Statement) → Statement.RespellsAll swap block block
  | [] => .nil
  | statement :: rest =>
    .cons (Statement.Respells.refl hswap statement) (Statement.RespellsAll.refl hswap rest)

end

theorem SourceFunction.Respells.refl (hswap : ∀ callee, swap callee callee)
    (function : SourceFunction) : function.Respells swap function :=
  ⟨rfl, .refl hswap function.body⟩

end Refl

/-! ## Corresponding steps -/

namespace Lower

variable {α β : Type}

/-- The step reports nothing. -/
def Quiet (x : Lower α) : Prop :=
  ∀ s a s', x s = .ok (a, s') → s'.diagnostics = s.diagnostics

theorem Quiet.bind {x : Lower α} {f : α → Lower β} (hx : x.Quiet) (hf : ∀ a, (f a).Quiet) :
    (x >>= f).Quiet := by
  intro s b s' h
  obtain ⟨a, s₁, hfirst, hrest⟩ := bind_ok.1 h
  rw [hf a s₁ b s' hrest, hx s a s₁ hfirst]

theorem quiet_pure (a : α) : (pure a : Lower α).Quiet := by
  intro s b s' h
  obtain ⟨_, rfl⟩ := pure_ok.1 h
  rfl

theorem quiet_lift (result : Except CompileError α) : (lift result).Quiet := by
  intro s a s' h
  obtain ⟨_, rfl⟩ := lift_ok.1 h
  rfl

theorem quiet_get : (get : Lower Session).Quiet := by
  intro s a s' h
  obtain ⟨_, rfl⟩ := get_ok.1 h
  rfl

theorem quiet_reserve (ty : Scalar) : (reserve ty).Quiet := by
  intro s a s' h
  obtain ⟨_, rfl⟩ := reserve_ok.1 h
  rfl

theorem quiet_define (ty : Scalar) : (define ty).Quiet := by
  intro s a s' h
  obtain ⟨_, rfl⟩ := define_ok.1 h
  rfl

theorem quiet_markRead (r : Register) : (markRead r).Quiet := by
  intro s a s' h
  obtain ⟨_, _, rfl⟩ := markRead_ok.1 h
  rfl

theorem quiet_typeOf (r : Register) : (typeOf r).Quiet := by
  intro s a s' h
  obtain ⟨_, rfl⟩ := typeOf_ok.1 h
  rfl

theorem quiet_readLocal (name : String) : (readLocal name).Quiet := by
  intro s a s' h
  obtain ⟨_, _, rfl⟩ := readLocal_ok.1 h
  rfl

theorem quiet_assignLocal (name : String) : (assignLocal name).Quiet := by
  intro s a s' h
  obtain ⟨_, _, _, rfl⟩ := assignLocal_ok.1 h
  rfl

theorem quiet_declareLocal (name : String) (ty : Scalar) : (declareLocal name ty).Quiet := by
  intro s a s' h
  obtain ⟨_, _, rfl⟩ := declareLocal_ok.1 h
  rfl

theorem quiet_declareParam (name : String) (ty : Scalar) : (declareParam name ty).Quiet := by
  intro s a s' h
  obtain ⟨_, _, rfl⟩ := declareParam_ok.1 h
  rfl

theorem quiet_assigned : assigned.Quiet := by
  intro s a s' h
  obtain ⟨_, rfl⟩ := assigned_ok.1 h
  rfl

theorem quiet_restoreAssigned (slots : SlotSet) : (restoreAssigned slots).Quiet := by
  intro s a s' h
  rw [← restoreAssigned_ok.1 h]

theorem quiet_addString (text : String) : (addString text).Quiet := by
  intro s a s' h
  obtain ⟨_, rfl⟩ := addString_ok.1 h
  rfl

end Lower

/-- A relation between steps that contains the steps without a report, and any two that
refuse, and is kept by sequencing. -/
structure StepCorrespondence (R : (α : Type) → Lower α → Lower α → Prop) : Prop where
  quiet {α : Type} {x : Lower α} (h : x.Quiet) : R α x x
  refuse {α : Type} (cause cause' : CompileError) : R α (Lower.refuse cause) (Lower.refuse cause')
  bind {α β : Type} {x y : Lower α} {f g : α → Lower β} (first : R α x y)
    (rest : ∀ a, R β (f a) (g a)) : R β (x >>= f) (y >>= g)

namespace Scope

open Lower

theorem quiet_bindArgs (sources : List Register) (types : List Scalar) :
    (bindArgs sources types).Quiet := by
  induction sources generalizing types with
  | nil => exact quiet_pure _
  | cons src sources ih =>
    cases types with
    | nil => exact quiet_pure _
    | cons ty types =>
      exact (quiet_markRead src).bind fun _ => (quiet_define ty).bind fun dest =>
        (quiet_markRead dest).bind fun _ => (ih types).bind fun _ => quiet_pure _

theorem quiet_resultRegister (returnType : Option Scalar) (keep : Bool) :
    (resultRegister returnType keep).Quiet := by
  cases returnType with
  | none => exact quiet_pure _
  | some ty =>
    cases keep with
    | true => exact (quiet_define ty).bind fun _ => quiet_pure _
    | false => exact (quiet_reserve ty).bind fun _ => quiet_pure _

theorem quiet_lowerStore (name : String) (src : Register) : (lowerStore name src).Quiet :=
  (quiet_assignLocal name).bind fun _ => (quiet_markRead src).bind fun _ => quiet_pure _

theorem quiet_lowerParams (params : List Parameter) : (lowerParams params).Quiet := by
  induction params with
  | nil => exact quiet_pure _
  | cons param rest ih =>
    exact (quiet_declareParam _ _).bind fun _ => (quiet_reserve _).bind fun _ => ih

/-- What corresponds in two scopes, so that their lowerings do: everything but the checks of
literals and the look-ups of callees is the same. -/
structure Corresponds (R : (α : Type) → Lower α → Lower α → Prop)
    (swap : Callee → Callee → Prop) (scope scope' : Scope) : Prop where
  returnType : scope'.function.returnType = scope.function.returnType
  constant? : ∀ name, scope'.shared.constant? name = scope.shared.constant? name
  literalValue : ∀ value ty, R Int (scope.literalValue value ty) (scope'.literalValue value ty)
  lowerCallee : ∀ {callee callee'}, swap callee callee' →
    R (Symbol × Signature) (scope.lowerCallee callee) (scope'.lowerCallee callee')

namespace Corresponds

variable {R : (α : Type) → Lower α → Lower α → Prop} {swap : Callee → Callee → Prop}
  {scope scope' : Scope}

theorem lowerLiteral (h : Corresponds R swap scope scope') (hR : StepCorrespondence R)
    (value : Int64) (ty : Scalar) :
    R _ (scope.lowerLiteral value ty) (scope'.lowerLiteral value ty) :=
  hR.bind (h.literalValue _ ty) fun _ =>
    hR.quiet ((quiet_define ty).bind fun _ => quiet_pure _)

theorem lowerCall (h : Corresponds R swap scope scope') (hR : StepCorrespondence R)
    {callee callee' : Callee} (target : swap callee callee') (arity : Nat)
    {args args' : Lower (List Register × List Op)} (arguments : R _ args args') (keep : Bool) :
    R _ (scope.lowerCall callee arity args keep) (scope'.lowerCall callee' arity args' keep) := by
  refine hR.bind (h.lowerCallee target) fun ⟨symbol, signature⟩ => ?_
  dsimp only
  split
  · exact hR.refuse _ _
  · refine hR.bind arguments fun ⟨sources, evaluation⟩ => hR.quiet ?_
    exact (quiet_bindArgs _ _).bind fun _ => (quiet_resultRegister _ _).bind fun _ => quiet_pure _

end Corresponds

end Scope

theorem Expr.RespellsAll.length_eq {swap : Callee → Callee → Prop} {es es' : List Expr}
    (h : Expr.RespellsAll swap es es') : es.length = es'.length := by
  induction es generalizing es' with
  | nil =>
    cases h
    rfl
  | cons e rest ih =>
    cases h with
    | cons first others => simp [ih others]

namespace Scope.Corresponds

open Lower

variable {R : (α : Type) → Lower α → Lower α → Prop} {swap : Callee → Callee → Prop}
  {scope scope' : Scope}

mutual

theorem lowerExpr (h : Corresponds R swap scope scope') (hR : StepCorrespondence R)
    {e e' : Expr} (he : e.Respells swap e') : R _ (scope.lowerExpr e) (scope'.lowerExpr e') := by
  cases he with
  | literal lit => exact h.lowerLiteral hR lit.value lit.ty
  | var name =>
    exact hR.quiet ((quiet_readLocal name).bind fun ty =>
      (quiet_define ty).bind fun _ => quiet_pure _)
  | constant name =>
    simp only [Scope.lowerExpr, h.constant? name]
    split
    · exact h.lowerLiteral hR _ _
    · exact hR.refuse _ _
  | binary op left right =>
    refine hR.bind (lowerExpr h hR left) fun ⟨left, leftOps⟩ => ?_
    refine hR.bind (lowerExpr h hR right) fun ⟨right, rightOps⟩ => hR.quiet ?_
    refine (quiet_markRead left).bind fun _ => (quiet_markRead right).bind fun _ => ?_
    split
    · exact (quiet_pure _).bind fun ty => (quiet_define ty).bind fun _ => quiet_pure _
    · exact (quiet_typeOf left).bind fun ty => (quiet_define ty).bind fun _ => quiet_pure _
  | cast operand ty =>
    refine hR.bind (lowerExpr h hR operand) fun ⟨src, ops⟩ => hR.quiet ?_
    exact (quiet_markRead src).bind fun _ => (quiet_define ty).bind fun _ => quiet_pure _
  | call target arguments =>
    simp only [Scope.lowerExpr, arguments.length_eq]
    refine hR.bind (h.lowerCall hR target _ (lowerArgs h hR arguments) true) fun ⟨dest, ops⟩ => ?_
    cases dest with
    | some dest => exact hR.quiet (quiet_pure _)
    | none => exact hR.refuse _ _

theorem lowerArgs (h : Corresponds R swap scope scope') (hR : StepCorrespondence R)
    {es es' : List Expr} (hes : Expr.RespellsAll swap es es') :
    R _ (scope.lowerArgs es) (scope'.lowerArgs es') := by
  cases hes with
  | nil => exact hR.quiet (quiet_pure _)
  | cons first others =>
    refine hR.bind (lowerExpr h hR first) fun ⟨register, ops⟩ => ?_
    exact hR.bind (lowerArgs h hR others) fun _ => hR.quiet (quiet_pure _)

end

theorem lowerPrint (h : Corresponds R swap scope scope') (hR : StepCorrespondence R)
    {what what' : Print} (hwhat : what.Respells swap what') :
    R _ (scope.lowerPrint what) (scope'.lowerPrint what') := by
  cases hwhat with
  | value operand =>
    refine hR.bind (h.lowerExpr hR operand) fun ⟨register, ops⟩ => ?_
    refine hR.bind (hR.quiet (quiet_typeOf register)) fun ty => ?_
    split
    · exact hR.quiet ((quiet_markRead register).bind fun _ => quiet_pure _)
    · exact hR.refuse _ _
  | char operand =>
    exact hR.bind (h.lowerExpr hR operand) fun ⟨register, _⟩ =>
      hR.quiet ((quiet_markRead register).bind fun _ => quiet_pure _)
  | newline => exact hR.quiet (quiet_pure _)
  | text s =>
    simp only [Scope.lowerPrint, lowerText]
    split
    · exact hR.refuse _ _
    · exact hR.quiet ((quiet_addString s).bind fun _ => quiet_pure _)

theorem lowerReturn (h : Corresponds R swap scope scope') (hR : StepCorrespondence R)
    {value value' : Option Expr} (hvalue : Option.Rel (Expr.Respells swap) value value') :
    R _ (scope.lowerReturn value) (scope'.lowerReturn value') := by
  cases hvalue with
  | some operand =>
    cases hdeclared : scope.function.returnType with
    | some ty =>
      simp only [Scope.lowerReturn, h.returnType, hdeclared]
      exact hR.bind (h.lowerExpr hR operand) fun ⟨register, _⟩ =>
        hR.quiet ((quiet_markRead register).bind fun _ => quiet_pure _)
    | none =>
      simp only [Scope.lowerReturn, h.returnType, hdeclared]
      exact hR.refuse _ _
  | none =>
    cases hdeclared : scope.function.returnType with
    | some ty =>
      simp only [Scope.lowerReturn, h.returnType, hdeclared]
      exact hR.refuse _ _
    | none =>
      simp only [Scope.lowerReturn, h.returnType, hdeclared]
      exact hR.quiet (quiet_pure _)

/-- An expression and the store of its value. -/
theorem lowerStored (h : Corresponds R swap scope scope') (hR : StepCorrespondence R)
    (name : String) {e e' : Expr} (he : e.Respells swap e') :
    R _ (do let (register, ops) ← scope.lowerExpr e
            return ops ++ (← lowerStore name register))
      (do let (register, ops) ← scope'.lowerExpr e'
          return ops ++ (← lowerStore name register)) :=
  hR.bind (h.lowerExpr hR he) fun ⟨register, _⟩ =>
    hR.quiet ((quiet_lowerStore name register).bind fun _ => quiet_pure _)

theorem lowerDeclare (h : Corresponds R swap scope scope') (hR : StepCorrespondence R)
    (name : String) (ty : Scalar) {init init' : Option Expr}
    (hinit : Option.Rel (Expr.Respells swap) init init') :
    R _ (scope.lowerDeclare name ty init) (scope'.lowerDeclare name ty init') := by
  refine hR.bind (hR.quiet (quiet_declareLocal name ty)) fun _ => ?_
  refine hR.bind (hR.quiet (quiet_reserve ty)) fun _ => ?_
  cases hinit with
  | some value => exact h.lowerStored hR name value
  | none => exact hR.quiet (quiet_pure _)

theorem lowerAssign (h : Corresponds R swap scope scope') (hR : StepCorrespondence R)
    (name : String) {e e' : Expr} (he : e.Respells swap e') :
    R _ (scope.lowerAssign name e) (scope'.lowerAssign name e') := by
  refine hR.bind (hR.quiet quiet_get) fun s => ?_
  exact hR.bind (hR.quiet (quiet_lift _)) fun _ => h.lowerStored hR name he

theorem lowerEval (h : Corresponds R swap scope scope') (hR : StepCorrespondence R)
    {e e' : Expr} (he : e.Respells swap e') : R _ (scope.lowerEval e) (scope'.lowerEval e') := by
  -- only a call is lowered in another way than for its value
  have hvalue : R _ (do let (_, ops) ← scope.lowerExpr e
                        return ops)
      (do let (_, ops) ← scope'.lowerExpr e'
          return ops) :=
    hR.bind (h.lowerExpr hR he) fun _ => hR.quiet (quiet_pure _)
  cases he with
  | call target arguments =>
    simp only [Scope.lowerEval, arguments.length_eq]
    exact hR.bind (h.lowerCall hR target _ (h.lowerArgs hR arguments) false) fun _ =>
      hR.quiet (quiet_pure _)
  | literal _ => exact hvalue
  | var _ => exact hvalue
  | constant _ => exact hvalue
  | binary _ _ _ => exact hvalue
  | cast _ _ => exact hvalue

mutual

theorem lowerStatement (h : Corresponds R swap scope scope') (hR : StepCorrespondence R)
    {statement statement' : Statement} (hstatement : statement.Respells swap statement') :
    R _ (scope.lowerStatement statement) (scope'.lowerStatement statement') := by
  cases hstatement with
  | declare name ty value =>
    exact hR.bind (h.lowerDeclare hR name ty value) fun _ => hR.quiet (quiet_pure _)
  | assign name value =>
    exact hR.bind (h.lowerAssign hR name value) fun _ => hR.quiet (quiet_pure _)
  | eval value => exact hR.bind (h.lowerEval hR value) fun _ => hR.quiet (quiet_pure _)
  | ret result => exact hR.bind (h.lowerReturn hR result) fun _ => hR.quiet (quiet_pure _)
  | print output => exact hR.bind (h.lowerPrint hR output) fun _ => hR.quiet (quiet_pure _)
  | branch condition thenArm elseArm =>
    refine hR.bind (h.lowerExpr hR condition) fun ⟨cond, condOps⟩ => ?_
    refine hR.bind (hR.quiet (quiet_markRead cond)) fun _ => ?_
    refine hR.bind (hR.quiet quiet_assigned) fun entry => ?_
    refine hR.bind (lowerBlock h hR thenArm) fun ⟨thenFlow, thenOps⟩ => ?_
    refine hR.bind (hR.quiet quiet_assigned) fun afterThen => ?_
    refine hR.bind (hR.quiet (quiet_restoreAssigned entry)) fun _ => ?_
    refine hR.bind (lowerBlock h hR elseArm) fun ⟨elseFlow, elseOps⟩ => hR.quiet ?_
    exact quiet_assigned.bind fun _ => (quiet_restoreAssigned _).bind fun _ => quiet_pure _
  | loop condition inner =>
    refine hR.bind (hR.quiet quiet_assigned) fun entry => ?_
    refine hR.bind (h.lowerExpr hR condition) fun ⟨cond, condOps⟩ => ?_
    refine hR.bind (hR.quiet (quiet_markRead cond)) fun _ => ?_
    refine hR.bind (lowerBlock h hR inner) fun ⟨_, bodyOps⟩ => hR.quiet ?_
    exact (quiet_restoreAssigned entry).bind fun _ => quiet_pure _

theorem lowerBlock (h : Corresponds R swap scope scope') (hR : StepCorrespondence R)
    {block block' : List Statement} (hblock : Statement.RespellsAll swap block block') :
    R _ (scope.lowerBlock block) (scope'.lowerBlock block') := by
  cases hblock with
  | nil => exact hR.quiet (quiet_pure _)
  | cons first others =>
    refine hR.bind (lowerStatement h hR first) fun ⟨flow, ops⟩ => ?_
    cases flow with
    | returns => exact hR.quiet (quiet_pure _)
    | continues => exact hR.bind (lowerBlock h hR others) fun _ => hR.quiet (quiet_pure _)

end

/-- The lowerings of whole bodies correspond. -/
theorem lowerBody (h : Corresponds R swap scope scope') (hR : StepCorrespondence R)
    (hfunction : scope.function.Respells swap scope'.function) :
    R _ scope.lowerBody scope'.lowerBody := by
  have hparams : scope'.function.params = scope.function.params := by rw [hfunction.same]
  simp only [Scope.lowerBody, hparams, h.returnType]
  refine hR.bind (hR.quiet (quiet_lowerParams _)) fun _ => ?_
  refine hR.bind (h.lowerBlock hR hfunction.body) fun ⟨flow, ops⟩ => ?_
  dsimp only
  split
  · exact hR.refuse _ _
  · exact hR.quiet (quiet_pure _)

end Scope.Corresponds

end ScalarC
