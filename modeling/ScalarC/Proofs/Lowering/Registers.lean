import ScalarC.Proofs.Lowering.Growth

/-!
# Lowering finds its registers

Lowering stops with a missing register if it marks one that the table does not have. That
never happens: the registers it marks are those of expressions it lowered before, and a
register that was handed out keeps its row.
-/

namespace ScalarC

/-- The outcome is not a missing register. -/
def FindsRegisters {α : Type} (outcome : Except Abort α) : Prop :=
  ∀ r, outcome ≠ .error (.missingRegister r)

namespace FindsRegisters

variable {α β : Type}

theorem ok (a : α) : FindsRegisters (.ok a) := nofun

theorem refused (cause : CompileError) : FindsRegisters (.error (.refused cause) : Except Abort α) :=
  nofun

theorem mapError (x : Except CompileError α) : FindsRegisters (x.mapError .refused) := by
  cases x with
  | error cause => exact refused cause
  | ok a => exact ok a

theorem bind {x : Except Abort α} {f : α → Except Abort β} (hx : FindsRegisters x)
    (hf : ∀ a, x = .ok a → FindsRegisters (f a)) : FindsRegisters (x >>= f) := by
  cases x with
  | error abort =>
    intro r heq
    cases heq
    exact hx r rfl
  | ok a => exact hf a rfl

end FindsRegisters

namespace Lower

variable {α β : Type} {s : Session} {r : Register}

/-- The step does not stop for a missing register. -/
def Finds (x : Lower α) (s : Session) : Prop := FindsRegisters (x s)

theorem Finds.bind {x : Lower α} {f : α → Lower β} (hx : x.Finds s)
    (hf : ∀ a s₁, x s = .ok (a, s₁) → (f a).Finds s₁) : (x >>= f).Finds s :=
  FindsRegisters.bind hx fun ⟨a, s₁⟩ h => hf a s₁ h

theorem finds_pure (a : α) (s : Session) : (pure a : Lower α).Finds s := .ok _

theorem finds_refuse (cause : CompileError) (s : Session) : (refuse cause : Lower α).Finds s :=
  .refused cause

theorem finds_lift (result : Except CompileError α) (s : Session) : (lift result).Finds s := by
  cases result with
  | error cause => exact finds_refuse cause s
  | ok a => exact finds_pure a s

theorem finds_modify (f : Session → Session) (s : Session) : (modify f : Lower Unit).Finds s :=
  .ok _

theorem finds_reserve (ty : Scalar) (s : Session) : (reserve ty).Finds s := .ok _

theorem finds_define (ty : Scalar) (s : Session) : (define ty).Finds s := by
  have hok : define ty s = .ok (s.next, s.defined ty) := define_ok.2 ⟨rfl, rfl⟩
  rw [Finds, hok]
  exact .ok _

theorem finds_markRead (h : s.registers.Has r) : (markRead r).Finds s := by
  obtain ⟨table, hmark⟩ := h.exists_markRead?
  have hok : markRead r s = .ok ((), _) := markRead_ok.2 ⟨table, hmark, rfl⟩
  rw [Finds, hok]
  exact .ok _

theorem finds_typeOf (h : s.registers.Has r) : (typeOf r).Finds s := by
  obtain ⟨ty, hty⟩ := h.exists_typeOf?
  have hok : typeOf r s = .ok (ty, s) := typeOf_ok.2 ⟨hty, rfl⟩
  rw [Finds, hok]
  exact .ok _

/-- A step on the local table stops for no register. -/
theorem finds_onLocals {step : LocalStep α} (keeps : step.KeepsIndex) (s : Session) :
    (onLocals step keeps).Finds s := by
  unfold Finds onLocals
  split
  · exact .ok _
  · exact .refused _

theorem finds_readLocal (name : String) (s : Session) : (readLocal name).Finds s :=
  finds_onLocals _ s

theorem finds_assignLocal (name : String) (s : Session) : (assignLocal name).Finds s :=
  .bind (finds_onLocals _ s) fun _ _ _ => finds_pure _ _

theorem finds_declareLocal (name : String) (ty : Scalar) (s : Session) :
    (declareLocal name ty).Finds s :=
  finds_onLocals _ s

theorem finds_declareParam (name : String) (ty : Scalar) (s : Session) :
    (declareParam name ty).Finds s :=
  finds_onLocals _ s

end Lower

namespace Scope

open Lower

variable {scope : Scope} {s : Session}

theorem finds_literalValue (scope : Scope) (value : Int) (ty : Scalar) (s : Session) :
    (scope.literalValue value ty).Finds s := by
  unfold literalValue
  split
  · exact finds_pure _ s
  · cases scope.shared.settings.overflow with
    | reject => exact finds_refuse _ s
    | warn => exact .bind (finds_modify _ s) fun _ _ _ => finds_pure _ _

theorem finds_lowerLiteral (scope : Scope) (value : Int64) (ty : Scalar) (s : Session) :
    (scope.lowerLiteral value ty).Finds s :=
  .bind (finds_literalValue scope _ ty s) fun _ _ _ =>
    .bind (finds_define ty _) fun _ _ _ => finds_pure _ _

theorem finds_lowerCallee (scope : Scope) (callee : Callee) (s : Session) :
    (scope.lowerCallee callee).Finds s := by
  cases callee with
  | function id =>
    simp only [lowerCallee]
    split
    · exact finds_pure _ s
    · exact finds_refuse _ s
  | symbol spelling =>
    refine .bind (finds_lift _ s) fun resolved s₁ _ => ?_
    split
    · split
      · exact .bind (finds_modify _ s₁) fun _ _ _ => finds_pure _ _
      · exact finds_pure _ s₁
    · exact finds_refuse _ s₁

theorem finds_bindArgs {sources : List Register} (types : List Scalar)
    (h : ∀ r ∈ sources, s.registers.Has r) : (bindArgs sources types).Finds s := by
  induction sources generalizing types s with
  | nil => exact finds_pure _ s
  | cons src sources ih =>
    cases types with
    | nil => exact finds_pure _ s
    | cons ty types =>
      refine .bind (finds_markRead (h src (by simp))) fun _ s₁ hsource => ?_
      refine .bind (finds_define ty s₁) fun dest s₂ hdest => ?_
      obtain ⟨rfl, rfl⟩ := define_ok.1 hdest
      have hcopy : (s₁.defined ty).registers.Has s₁.next := by simp [RegisterTable.Has]
      refine .bind (finds_markRead hcopy) fun _ s₂ hread => ?_
      have hgrows := ((markRead_evaluates hsource).trans
        ((s₁.evaluates_defined ty).trans (markRead_evaluates hread))).size_le
      refine .bind (ih types fun r hr => ?_) fun _ _ _ => finds_pure _ _
      exact (h r (List.mem_cons_of_mem _ hr)).of_le hgrows

theorem finds_resultRegister (returnType : Option Scalar) (keep : Bool) (s : Session) :
    (resultRegister returnType keep).Finds s := by
  cases returnType with
  | none => exact finds_pure _ s
  | some ty =>
    simp only [resultRegister]
    split
    · exact .bind (finds_define ty s) fun _ _ _ => finds_pure _ _
    · exact .bind (finds_reserve ty s) fun _ _ _ => finds_pure _ _

/-- A call finds its registers if its arguments do and have rows. -/
theorem finds_lowerCall {callee : Callee} {arity : Nat}
    {lowerArgs : Lower (List Register × List Op)} {keep : Bool}
    (hargs : ∀ s, lowerArgs.Finds s)
    (hhas : ∀ s registers ops s', lowerArgs s = .ok ((registers, ops), s') →
      ∀ r ∈ registers, s'.registers.Has r) :
    (scope.lowerCall callee arity lowerArgs keep).Finds s := by
  refine .bind (finds_lowerCallee scope callee s) fun ⟨symbol, signature⟩ s₁ _ => ?_
  dsimp only
  split
  · exact finds_refuse _ s₁
  · refine .bind (hargs s₁) fun ⟨sources, evaluation⟩ s₂ hsources => ?_
    refine .bind (finds_bindArgs _ (hhas _ _ _ _ hsources)) fun ⟨bound, binding⟩ s₃ _ => ?_
    exact .bind (finds_resultRegister _ keep s₃) fun _ _ _ => finds_pure _ _

mutual

theorem finds_lowerExpr (e : Expr) (s : Session) : (scope.lowerExpr e).Finds s := by
  cases e with
  | literal lit => exact finds_lowerLiteral scope _ _ s
  | var name =>
    exact .bind (finds_readLocal name s) fun ty _ _ =>
      .bind (finds_define ty _) fun _ _ _ => finds_pure _ _
  | constant name =>
    simp only [lowerExpr]
    split
    · exact finds_lowerLiteral scope _ _ s
    · exact finds_refuse _ s
  | binary op lhs rhs =>
    refine .bind (finds_lowerExpr lhs s) fun ⟨left, leftOps⟩ s₁ hleft => ?_
    refine .bind (finds_lowerExpr rhs s₁) fun ⟨right, rightOps⟩ s₂ hright => ?_
    have hhas := (lowerExpr_derives lhs hleft (lowerExpr_derives_one hright)).has
    refine .bind (finds_markRead (hhas left (by simp))) fun _ s₃ hreadLeft => ?_
    have hsize := (markRead_evaluates hreadLeft).size_le
    refine .bind (finds_markRead ((hhas right (by simp)).of_le hsize)) fun _ s₄ hreadRight => ?_
    have hsize' := Nat.le_trans hsize (markRead_evaluates hreadRight).size_le
    have hresult : ∀ ty s₅, (do
        let dest ← define ty
        return (dest, leftOps ++ rightOps ++ [.binary dest op left right]) :
          Lower (Register × List Op)).Finds s₅ :=
      fun ty s₅ => .bind (finds_define ty s₅) fun _ _ _ => finds_pure _ _
    dsimp only
    split
    · exact .bind (finds_pure _ s₄) fun ty s₅ _ => hresult ty s₅
    · exact .bind (finds_typeOf ((hhas left (by simp)).of_le hsize')) fun ty s₅ _ => hresult ty s₅
  | cast value ty =>
    refine .bind (finds_lowerExpr value s) fun ⟨src, ops⟩ s₁ hvalue => ?_
    have hhas := (lowerExpr_derives_one hvalue).has src (by simp)
    exact .bind (finds_markRead hhas) fun _ s₂ _ =>
      .bind (finds_define ty s₂) fun _ _ _ => finds_pure _ _
  | call callee args =>
    refine .bind (finds_lowerCall (finds_lowerArgs args) fun _ _ _ _ hargs =>
      (lowerArgs_derives args hargs).has) fun ⟨dest, ops⟩ s₁ _ => ?_
    cases dest with
    | some dest => exact finds_pure _ s₁
    | none => exact finds_refuse _ s₁

theorem finds_lowerArgs (es : List Expr) (s : Session) : (scope.lowerArgs es).Finds s := by
  cases es with
  | nil => exact finds_pure _ s
  | cons e rest =>
    refine .bind (finds_lowerExpr e s) fun ⟨register, ops⟩ s₁ _ => ?_
    exact .bind (finds_lowerArgs rest s₁) fun _ _ _ => finds_pure _ _

end

/-- Behind an expression its register has a row. -/
theorem finds_lowerExpr_bind {α : Type} {e : Expr} {use : Register × List Op → Lower α}
    (s : Session) (h : ∀ s₁ r ops, s₁.registers.Has r → (use (r, ops)).Finds s₁) :
    (scope.lowerExpr e >>= use).Finds s :=
  .bind (finds_lowerExpr e s) fun ⟨r, ops⟩ s₁ hvalue =>
    h s₁ r ops ((lowerExpr_derives_one hvalue).has r (by simp))

theorem finds_lowerStore (name : String) {src : Register} (h : s.registers.Has src) :
    (lowerStore name src).Finds s := by
  refine .bind (finds_assignLocal name s) fun _ s₁ hassign => ?_
  have hhas := h.of_le (assignLocal_extends hassign).size_le
  exact .bind (finds_markRead hhas) fun _ _ _ => finds_pure _ _

theorem finds_lowerDeclare (name : String) (ty : Scalar) (init : Option Expr) (s : Session) :
    (scope.lowerDeclare name ty init).Finds s := by
  refine .bind (finds_declareLocal name ty s) fun _ s₁ _ => ?_
  refine .bind (finds_reserve ty s₁) fun _ s₂ _ => ?_
  cases init with
  | none => exact finds_pure _ s₂
  | some e =>
    exact finds_lowerExpr_bind s₂ fun _ _ _ hhas =>
      .bind (finds_lowerStore name hhas) fun _ _ _ => finds_pure _ _

theorem finds_lowerAssign (name : String) (e : Expr) (s : Session) :
    (scope.lowerAssign name e).Finds s := by
  refine .bind (.ok _) fun _ s₁ _ => .bind (finds_lift _ s₁) fun _ s₂ _ => ?_
  exact finds_lowerExpr_bind s₂ fun _ _ _ hhas =>
    .bind (finds_lowerStore name hhas) fun _ _ _ => finds_pure _ _

theorem finds_lowerEval (e : Expr) (s : Session) : (scope.lowerEval e).Finds s := by
  unfold lowerEval
  split
  · rename_i callee args
    exact .bind (finds_lowerCall (finds_lowerArgs args) fun _ _ _ _ hargs =>
      (lowerArgs_derives args hargs).has) fun _ _ _ => finds_pure _ _
  · exact .bind (finds_lowerExpr _ s) fun _ _ _ => finds_pure _ _

theorem finds_lowerPrint (what : Print) (s : Session) : (scope.lowerPrint what).Finds s := by
  cases what with
  | value e =>
    refine finds_lowerExpr_bind s fun s₁ r ops hhas => ?_
    refine .bind (finds_typeOf hhas) fun ty s₂ hty => ?_
    obtain ⟨_, rfl⟩ := typeOf_ok.1 hty
    split
    · exact .bind (finds_markRead hhas) fun _ _ _ => finds_pure _ _
    · exact finds_refuse _ s₁
  | char e =>
    exact finds_lowerExpr_bind s fun _ _ _ hhas =>
      .bind (finds_markRead hhas) fun _ _ _ => finds_pure _ _
  | newline => exact finds_pure _ s
  | text t =>
    simp only [lowerPrint, lowerText]
    split
    · exact finds_refuse _ s
    · exact .bind (.ok _) fun _ _ _ => finds_pure _ _

theorem finds_lowerReturn (value : Option Expr) (s : Session) :
    (scope.lowerReturn value).Finds s := by
  unfold lowerReturn
  split
  · exact finds_lowerExpr_bind s fun _ _ _ hhas =>
      .bind (finds_markRead hhas) fun _ _ _ => finds_pure _ _
  · exact finds_pure _ s
  · exact finds_refuse _ s
  · exact finds_refuse _ s

mutual

theorem finds_lowerStatement (statement : Statement) (s : Session) :
    (scope.lowerStatement statement).Finds s := by
  cases statement with
  | declare name ty init =>
    exact .bind (finds_lowerDeclare name ty init s) fun _ _ _ => finds_pure _ _
  | assign name e => exact .bind (finds_lowerAssign name e s) fun _ _ _ => finds_pure _ _
  | eval e => exact .bind (finds_lowerEval e s) fun _ _ _ => finds_pure _ _
  | ret value => exact .bind (finds_lowerReturn value s) fun _ _ _ => finds_pure _ _
  | print what => exact .bind (finds_lowerPrint what s) fun _ _ _ => finds_pure _ _
  | branch c thenBlock elseBlock =>
    refine finds_lowerExpr_bind s fun s₁ r condOps hhas => ?_
    refine .bind (finds_markRead hhas) fun _ s₂ _ => .bind (.ok _) fun _ s₃ _ => ?_
    refine .bind (finds_lowerBlock thenBlock s₃) fun _ s₄ _ => .bind (.ok _) fun _ s₅ _ => ?_
    refine .bind (finds_modify _ s₅) fun _ s₆ _ => ?_
    refine .bind (finds_lowerBlock elseBlock s₆) fun _ s₇ _ => .bind (.ok _) fun _ s₈ _ => ?_
    exact .bind (finds_modify _ s₈) fun _ _ _ => finds_pure _ _
  | loop c body =>
    refine .bind (.ok _) fun _ s₁ _ => finds_lowerExpr_bind s₁ fun s₂ r condOps hhas => ?_
    refine .bind (finds_markRead hhas) fun _ s₃ _ => ?_
    refine .bind (finds_lowerBlock body s₃) fun _ s₄ _ => ?_
    exact .bind (finds_modify _ s₄) fun _ _ _ => finds_pure _ _

theorem finds_lowerBlock (block : List Statement) (s : Session) :
    (scope.lowerBlock block).Finds s := by
  cases block with
  | nil => exact finds_pure _ s
  | cons statement rest =>
    refine .bind (finds_lowerStatement statement s) fun ⟨flow, ops⟩ s₁ _ => ?_
    cases flow with
    | returns => exact finds_pure _ s₁
    | continues => exact .bind (finds_lowerBlock rest s₁) fun _ _ _ => finds_pure _ _

end

theorem finds_lowerParams (params : List Parameter) (s : Session) :
    (lowerParams params).Finds s := by
  induction params generalizing s with
  | nil => exact finds_pure _ s
  | cons param rest ih =>
    refine .bind (finds_declareParam param.name param.ty s) fun _ s₁ _ => ?_
    exact .bind (finds_reserve param.ty s₁) fun _ s₂ _ => ih s₂

theorem finds_lowerBody (scope : Scope) (s : Session) : scope.lowerBody.Finds s := by
  refine .bind (finds_lowerParams _ s) fun _ s₁ _ => ?_
  refine .bind (finds_lowerBlock _ s₁) fun ⟨flow, ops⟩ s₂ _ => ?_
  dsimp only
  split
  · exact finds_refuse _ s₂
  · exact finds_pure _ s₂

end Scope

namespace Shared

theorem finds_lowerFunction (shared : Shared) (function : SourceFunction) :
    FindsRegisters (shared.lowerFunction function) := by
  unfold lowerFunction
  split
  · exact .refused _
  · exact .bind (Scope.finds_lowerBody _ _) fun _ _ => .ok _

theorem finds_lowerExternal (shared : Shared) (function : SourceFunction) :
    FindsRegisters (shared.lowerExternal function) := by
  unfold lowerExternal
  split
  · exact .refused _
  · exact .ok _

theorem finds_lowerFunctions (shared : Shared) (functions : List SourceFunction) :
    FindsRegisters (shared.lowerFunctions functions) := by
  induction functions with
  | nil => exact .ok _
  | cons function rest ih =>
    have hrest : ∀ first, FindsRegisters (do
        return first :: (← shared.lowerFunctions rest) : Except Abort (List FunctionLowering)) :=
      fun first => .bind ih fun _ _ => .ok _
    simp only [lowerFunctions]
    split
    · exact .bind (finds_lowerExternal shared function) fun first _ => hrest first
    · exact .bind (finds_lowerFunction shared function) fun first _ => hrest first

end Shared

/-- Lowering a unit never misses a register. -/
theorem SourceUnit.finds_lower (unit : SourceUnit) (settings : Settings) :
    FindsRegisters (unit.lower settings) :=
  .bind (.mapError _) fun shared _ => .bind (shared.finds_lowerFunctions _) fun _ _ =>
    .bind (.mapError _) fun _ _ => .bind (.mapError _) fun _ _ =>
      .bind (.mapError _) fun _ _ => .ok _

end ScalarC
