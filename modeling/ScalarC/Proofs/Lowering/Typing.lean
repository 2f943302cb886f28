import Mathlib.Data.List.Forall2
import ScalarC.Proofs.Lowering.Growth
import ScalarC.Proofs.OpTree

/-!
# Typing of register code

The typing rules of operations, relative to the types of registers and locals and to the
signatures of callees. The tables of a session only grow, so an operation that is well
typed when it is added stays well typed; and every derivation of lowered code yields
well-typed operations only.
-/

namespace ScalarC

/-- What the typing of operations is relative to. -/
structure TypeContext where
  registerType? : Register → Option Scalar
  localType? : String → Option Scalar
  /-- The symbol may be called with the signature. -/
  Calls : Symbol → Signature → Prop

/-- The typing rules. Conversions take any two types; a printer of numbers takes the type
that it prints, while characters are printed from any type. -/
def Op.WellTyped (Γ : TypeContext) : Op → Prop
  | .loadConst dest value => ∃ ty, Γ.registerType? dest = some ty ∧ ty.fits value = true
  | .loadLocal dest name => ∃ ty, Γ.localType? name = some ty ∧ Γ.registerType? dest = some ty
  | .copy dest src | .cast dest src =>
    ∃ source target, Γ.registerType? src = some source ∧ Γ.registerType? dest = some target
  | .storeLocal name src =>
    ∃ source target, Γ.registerType? src = some source ∧ Γ.localType? name = some target
  | .binary dest op lhs rhs =>
    ∃ left right, Γ.registerType? lhs = some left ∧ Γ.registerType? rhs = some right
      ∧ Γ.registerType? dest = some (if op.isComparison then .u8 else left)
  | .call dest callee args =>
    ∃ signature, Γ.Calls callee signature
      ∧ List.Forall₂ (fun r ty => Γ.registerType? r = some ty) args signature.params
      ∧ ∀ r ∈ dest, ∃ ty, signature.returnType = some ty ∧ Γ.registerType? r = some ty
  | .print routine .nothing => routine.param = .nothing
  | .print routine (.register source) =>
    ∃ ty, Γ.registerType? source = some ty ∧ (routine = .char ∨ routine.param = .scalar ty)
  | .print routine (.string _) => routine.param = .string
  | .ret value => ∀ r ∈ value, ∃ ty, Γ.registerType? r = some ty
  | .branch cond _ _ | .loop _ cond _ => ∃ ty, Γ.registerType? cond = some ty

namespace TypeContext

variable {Γ Δ : TypeContext} {op : Op} {ops rest : List Op}

/-- What one context finds, the other finds as well. -/
structure Le (Γ Δ : TypeContext) : Prop where
  register {r : Register} {ty : Scalar} : Γ.registerType? r = some ty → Δ.registerType? r = some ty
  slot {name : String} {ty : Scalar} : Γ.localType? name = some ty → Δ.localType? name = some ty
  calls {symbol : Symbol} {signature : Signature} :
    Γ.Calls symbol signature → Δ.Calls symbol signature

/-- All operations are well typed, at every depth. -/
def Types (Γ : TypeContext) (ops : List Op) : Prop :=
  ∀ op ∈ Op.nestedAll ops, op.WellTyped Γ

end TypeContext

/-- In a larger context an operation stays well typed. -/
theorem Op.WellTyped.mono {Γ Δ : TypeContext} {op : Op} (hle : Γ.Le Δ) (h : op.WellTyped Γ) :
    op.WellTyped Δ := by
  cases op with
  | loadConst dest value =>
    obtain ⟨ty, hdest, hfits⟩ := h
    exact ⟨ty, hle.register hdest, hfits⟩
  | loadLocal dest name =>
    obtain ⟨ty, hname, hdest⟩ := h
    exact ⟨ty, hle.slot hname, hle.register hdest⟩
  | copy dest src | cast dest src =>
    obtain ⟨source, target, hsrc, hdest⟩ := h
    exact ⟨source, target, hle.register hsrc, hle.register hdest⟩
  | storeLocal name src =>
    obtain ⟨source, target, hsrc, hname⟩ := h
    exact ⟨source, target, hle.register hsrc, hle.slot hname⟩
  | binary dest op lhs rhs =>
    obtain ⟨left, right, hleft, hright, hdest⟩ := h
    exact ⟨left, right, hle.register hleft, hle.register hright, hle.register hdest⟩
  | call dest callee args =>
    obtain ⟨signature, hcalls, hargs, hdest⟩ := h
    refine ⟨signature, hle.calls hcalls, hargs.imp fun _ _ => hle.register, fun r hr => ?_⟩
    obtain ⟨ty, hreturns, hty⟩ := hdest r hr
    exact ⟨ty, hreturns, hle.register hty⟩
  | print routine arg =>
    cases arg with
    | nothing => exact h
    | string index => exact h
    | register source =>
      obtain ⟨ty, hsource, hprinter⟩ := h
      exact ⟨ty, hle.register hsource, hprinter⟩
  | ret value =>
    intro r hr
    obtain ⟨ty, hty⟩ := h r hr
    exact ⟨ty, hle.register hty⟩
  | branch cond thenOps elseOps | loop condOps cond body =>
    obtain ⟨ty, hcond⟩ := h
    exact ⟨ty, hle.register hcond⟩

namespace TypeContext.Types

variable {Γ Δ : TypeContext} {op : Op} {ops rest thenOps elseOps condOps body : List Op}
  {cond : Register}

theorem mono (hle : Γ.Le Δ) (h : Γ.Types ops) : Δ.Types ops :=
  fun op hop => (h op hop).mono hle

theorem nil : Γ.Types [] := by
  simp [Types, Op.nestedAll]

theorem append (h : Γ.Types ops) (h' : Γ.Types rest) : Γ.Types (ops ++ rest) := by
  intro op hop
  rw [Op.nestedAll_append, List.mem_append] at hop
  exact hop.elim (h op) (h' op)

/-- An operation that nests no others, before well-typed ones. -/
theorem cons (hflat : op.nested = [op]) (hop : op.WellTyped Γ) (h : Γ.Types ops) :
    Γ.Types (op :: ops) := by
  intro other hother
  rw [Op.nestedAll, hflat, List.singleton_append, List.mem_cons] at hother
  rcases hother with rfl | hother
  · exact hop
  · exact h other hother

theorem branch (hop : (Op.branch cond thenOps elseOps).WellTyped Γ) (hthen : Γ.Types thenOps)
    (helse : Γ.Types elseOps) (h : Γ.Types ops) :
    Γ.Types (.branch cond thenOps elseOps :: ops) := by
  intro other hother
  simp only [Op.nestedAll, Op.nested, List.cons_append, List.mem_cons, List.mem_append] at hother
  rcases hother with rfl | (hother | hother) | hother
  · exact hop
  · exact hthen other hother
  · exact helse other hother
  · exact h other hother

theorem loop (hop : (Op.loop condOps cond body).WellTyped Γ) (hcond : Γ.Types condOps)
    (hbody : Γ.Types body) (h : Γ.Types ops) : Γ.Types (.loop condOps cond body :: ops) := by
  intro other hother
  simp only [Op.nestedAll, Op.nested, List.cons_append, List.mem_cons, List.mem_append] at hother
  rcases hother with rfl | (hother | hother) | hother
  · exact hop
  · exact hcond other hother
  · exact hbody other hother
  · exact h other hother

end TypeContext.Types

/-- How functions that share it call each other: by the symbol that a function owns, or by
another spelling that is recorded as an alias of it. -/
def Shared.Calls (shared : Shared) (aliases : NameTable FunctionId) (symbol : Symbol)
    (signature : Signature) : Prop :=
  ∃ id found, shared.signature? id = some found ∧ signature = { found with symbol }
    ∧ (symbol = found.symbol
      ∨ shared.registry.resolveSymbol symbol = .ok ⟨symbol, id, false⟩
      ∨ shared.registry.resolveSymbol symbol = .ok ⟨symbol, id, true⟩
        ∧ (aliases.find? symbol).isSome)

/-- Every recorded alias is one of the function that it stands for. -/
def Registry.Resolves (registry : Registry) (aliases : NameTable FunctionId) : Prop :=
  ∀ symbol id, aliases.find? symbol = some id →
    registry.resolveSymbol symbol = .ok ⟨symbol, id, true⟩

namespace Session

/-- The types that the tables of a session give. -/
def types (s : Session) (shared : Shared) : TypeContext :=
  ⟨s.registers.typeOf?, s.locals.typeOf?, shared.Calls s.aliases⟩

/-- Lowering adds to the tables, and adds aliases that resolve. -/
structure Grows (registry : Registry) (s s' : Session) : Prop extends s.Extends s' where
  aliased : ∀ symbol, (s.aliases.find? symbol).isSome → (s'.aliases.find? symbol).isSome
  resolves : registry.Resolves s.aliases → registry.Resolves s'.aliases

variable {registry : Registry} {s s₁ s' : Session}

theorem Extends.grows (h : s.Extends s') (heq : s'.aliases = s.aliases) : s.Grows registry s' where
  toExtends := h
  aliased := by simp [heq]
  resolves := by simp [heq]

theorem Grows.trans (h : s.Grows registry s₁) (h' : s₁.Grows registry s') :
    s.Grows registry s' where
  toExtends := h.toExtends.trans h'.toExtends
  aliased symbol := h'.aliased symbol ∘ h.aliased symbol
  resolves := h'.resolves ∘ h.resolves

theorem Grows.types_le {shared : Shared} (h : s.Grows shared.registry s') :
    (s.types shared).Le (s'.types shared) where
  register := RegisterTable.typeOf?_of_prefix h.types
  slot := LocalTable.typeOf?_of_prefix h.declared
  calls := by
    rintro symbol signature ⟨target, found, hfound, heq, hnames⟩
    refine ⟨target, found, hfound, heq, ?_⟩
    exact hnames.imp_right (Or.imp_right fun ⟨hresolve, halias⟩ =>
      ⟨hresolve, h.aliased symbol halias⟩)

end Session

namespace Scope

variable {scope : Scope} {s s' : Session} {callee : Callee} {symbol : Symbol}
  {signature : Signature}

theorem lowerCallee_grows (h : scope.lowerCallee callee s = .ok ((symbol, signature), s')) :
    s.Grows scope.shared.registry s' := by
  have hextends := (lowerCallee_evaluates h).extends
  obtain ⟨id, _, ⟨_, rfl⟩ | ⟨hresolve, rfl⟩⟩ := lowerCallee_ok h
  · exact hextends.grows rfl
  · refine ⟨hextends, fun other hother => ?_, fun hall other target hother => ?_⟩
    · rw [NameTable.find?_insert]
      split
      · rfl
      · exact hother
    · rw [NameTable.find?_insert] at hother
      split at hother
      · rename_i heq
        cases hother
        exact heq ▸ hresolve
      · exact hall other target hother

/-- The target of a call may be called with the parameters and result of its signature. -/
theorem lowerCallee_calls (h : scope.lowerCallee callee s = .ok ((symbol, signature), s')) :
    scope.shared.Calls s'.aliases symbol { signature with symbol } := by
  obtain ⟨id, hsignature, ⟨hname | hname, rfl⟩ | ⟨hname, rfl⟩⟩ := lowerCallee_ok h
  · exact ⟨id, signature, hsignature, rfl, .inl hname⟩
  · exact ⟨id, signature, hsignature, rfl, .inr (.inl hname)⟩
  · exact ⟨id, signature, hsignature, rfl, .inr (.inr ⟨hname, by simp [NameTable.find?_insert]⟩)⟩

end Scope

theorem Session.grows_relation (scope : Scope) :
    StepRelation scope (Session.Grows scope.shared.registry) where
  refl s := (Extends.refl s).grows rfl
  trans := .trans
  defined s ty := (evaluates_defined s ty).extends.grows rfl
  reserved s ty := (evaluates_reserved s ty).extends.grows rfl
  markRead h := by
    refine (Lower.markRead_evaluates h).extends.grows ?_
    obtain ⟨_, _, rfl⟩ := Lower.markRead_ok.1 h
    rfl
  readLocal h := by
    refine (Lower.readLocal_evaluates h).extends.grows ?_
    obtain ⟨_, _, rfl⟩ := Lower.readLocal_ok.1 h
    rfl
  literal h := by
    refine (Scope.literalValue_evaluates h).extends.grows ?_
    obtain ⟨_, _, rfl⟩ := Scope.literalValue_ok h
    rfl
  callee := Scope.lowerCallee_grows
  restored s slots := (extends_restored s slots).grows rfl
  assignLocal h := by
    refine (Lower.assignLocal_extends h).grows ?_
    obtain ⟨_, _, _, rfl⟩ := Lower.assignLocal_ok.1 h
    rfl
  declareLocal h := by
    refine (Lower.declareLocal_extends h).grows ?_
    obtain ⟨_, _, rfl⟩ := Lower.declareLocal_ok.1 h
    rfl
  addString _ _ _ := Extends.grows ⟨List.prefix_rfl, id, List.prefix_rfl, by simp⟩ rfl

variable {scope : Scope} {s s₁ s' : Session}

theorem LowersExprs.grows {es : List Expr} {registers : List Register} {ops : List Op}
    (h : LowersExprs scope s es registers ops s') : s.Grows scope.shared.registry s' :=
  (Session.grows_relation scope).lowersExprs h

theorem LowersBlock.grows {block : List Statement} {flow : Flow} {ops : List Op}
    (h : LowersBlock scope s block flow ops s') : s.Grows scope.shared.registry s' :=
  (Session.grows_relation scope).lowersBlock h

theorem LowersExprs.exists_type {es : List Expr} {registers : List Register} {ops : List Op}
    (h : LowersExprs scope s es registers ops s') {r : Register} (hr : r ∈ registers) :
    ∃ ty, s'.registers.typeOf? r = some ty :=
  (h.has r hr).exists_typeOf?

namespace BindsArgs

variable {sources bound : List Register} {types : List Scalar} {copies : List Op}

/-- The copies of arguments have the types of the parameters. -/
theorem bound_types (h : BindsArgs s sources types bound copies s') :
    List.Forall₂ (fun r ty => s'.registers.typeOf? r = some ty) bound types := by
  induction h with
  | nil s => exact .nil
  | @cons s s₁ s₂ s' src ty sources bound types copies readSource readCopy tail ih =>
    refine .cons ?_ ih
    exact RegisterTable.typeOf?_of_prefix
      ((Lower.markRead_evaluates readCopy).trans tail.evaluates).types (s₁.typeOf?_defined ty)

theorem grows (scope : Scope) (h : BindsArgs s sources types bound copies s') :
    s.Grows scope.shared.registry s' :=
  (Session.grows_relation scope).bindsArgs h

theorem typed (scope : Scope) (h : BindsArgs s sources types bound copies s')
    (hsources : ∀ r ∈ sources, s.registers.Has r) :
    (s'.types scope.shared).Types copies := by
  induction h with
  | nil s => exact .nil
  | @cons s s₁ s₂ s' src ty sources bound types copies readSource readCopy tail ih =>
    have hstep : s.Evaluates s₂ := (Lower.markRead_evaluates readSource).trans
      ((s₁.evaluates_defined ty).trans (Lower.markRead_evaluates readCopy))
    obtain ⟨source, hsource⟩ := ((hsources src (by simp)).of_le hstep.size_le).exists_typeOf?
    have hdest : s₂.registers.typeOf? s₁.next = some ty := RegisterTable.typeOf?_of_prefix
      (Lower.markRead_evaluates readCopy).types (s₁.typeOf?_defined ty)
    have hop : (Op.copy s₁.next src).WellTyped (s₂.types scope.shared) :=
      ⟨source, ty, hsource, hdest⟩
    refine .cons rfl (hop.mono (tail.grows scope).types_le) (ih fun r hr => ?_)
    exact (hsources r (List.mem_cons_of_mem _ hr)).of_le hstep.size_le

end BindsArgs

/-- The operations of lowered expressions are well typed. -/
theorem LowersExprs.typed {es : List Expr} {registers : List Register} {ops : List Op}
    (h : LowersExprs scope s es registers ops s') : (s'.types scope.shared).Types ops := by
  -- each operation is typed by the tables at its place, and these only grow up to `s'`
  induction h with
  | nil s => exact .nil
  | @literal s s₁ s' lit n rest registers ops value tail ih =>
    have hop : (Op.loadConst s₁.next n).WellTyped ((s₁.defined lit.ty).types scope.shared) :=
      ⟨lit.ty, s₁.typeOf?_defined lit.ty, (Scope.literalValue_ok value).1 ▸ lit.ty.fits_wrap _⟩
    exact .cons rfl (hop.mono tail.grows.types_le) ih
  | @constant s s₁ s' name c n rest registers ops found value tail ih =>
    have hop : (Op.loadConst s₁.next n).WellTyped ((s₁.defined c.ty).types scope.shared) :=
      ⟨c.ty, s₁.typeOf?_defined c.ty, (Scope.literalValue_ok value).1 ▸ c.ty.fits_wrap _⟩
    exact .cons rfl (hop.mono tail.grows.types_le) ih
  | @var s s₁ s' name ty rest registers ops read tail ih =>
    have hname : s₁.locals.typeOf? name = some ty := LocalTable.typeOf?_of_prefix
      (Lower.readLocal_evaluates read).extends.declared (Lower.readLocal_typeOf? read)
    have hop : (Op.loadLocal s₁.next name).WellTyped ((s₁.defined ty).types scope.shared) :=
      ⟨ty, hname, s₁.typeOf?_defined ty⟩
    exact .cons rfl (hop.mono tail.grows.types_le) ih
  | @binary s s₁ s₂ s₃ s' op lhs rhs left right ty rest registers operandOps ops operands readLeft
      readRight result tail ihOperands ih =>
    have hgrows : s₁.Grows scope.shared.registry s₃ :=
      ((Session.grows_relation scope).markRead readLeft).trans
        ((Session.grows_relation scope).markRead readRight)
    have hdefined : s₃.Grows scope.shared.registry (s₃.defined ty) :=
      (Session.grows_relation scope).defined s₃ ty
    obtain ⟨leftTy, hleft⟩ := operands.exists_type (show left ∈ [left, right] by simp)
    obtain ⟨rightTy, hright⟩ := operands.exists_type (show right ∈ [left, right] by simp)
    have hsame : s₃.registers.typeOf? left = some leftTy := hgrows.types_le.register hleft
    rw [Session.resultType?, hsame, ← apply_ite some, Option.some.injEq] at result
    have hop : (Op.binary s₃.next op left right).WellTyped ((s₃.defined ty).types scope.shared) :=
      ⟨leftTy, rightTy, (hgrows.trans hdefined).types_le.register hleft,
        (hgrows.trans hdefined).types_le.register hright, result ▸ s₃.typeOf?_defined ty⟩
    exact (ihOperands.mono ((hgrows.trans hdefined).trans tail.grows).types_le).append
      (.cons rfl (hop.mono tail.grows.types_le) ih)
  | @cast s s₁ s₂ s' value ty src rest registers operandOps ops operand readSource tail ihOperand
      ih =>
    have hgrows : s₁.Grows scope.shared.registry (s₂.defined ty) :=
      ((Session.grows_relation scope).markRead readSource).trans
        ((Session.grows_relation scope).defined s₂ ty)
    obtain ⟨source, hsource⟩ := operand.exists_type (show src ∈ [src] by simp)
    have hop : (Op.cast s₂.next src).WellTyped ((s₂.defined ty).types scope.shared) :=
      ⟨source, ty, hgrows.types_le.register hsource, s₂.typeOf?_defined ty⟩
    exact (ihOperand.mono (hgrows.trans tail.grows).types_le).append
      (.cons rfl (hop.mono tail.grows.types_le) ih)
  | @call s s₁ s₂ s₃ s' callee args rest symbol signature sources bound registers ty argOps copies
      ops target arity arguments binding returns tail ihArguments ih =>
    have hdefined : (s₃.types scope.shared).Le ((s₃.defined ty).types scope.shared) :=
      ((Session.grows_relation scope).defined s₃ ty).types_le
    have hbind := (binding.grows scope).types_le
    have hcopies := binding.typed scope arguments.has
    have hop : (Op.call (some s₃.next) symbol bound).WellTyped
        ((s₃.defined ty).types scope.shared) := by
      refine ⟨{ signature with symbol }, ?_, ?_, ?_⟩
      · exact hdefined.calls (hbind.calls (arguments.grows.types_le.calls
          (Scope.lowerCallee_calls target)))
      · exact binding.bound_types.imp fun _ _ => hdefined.register
      · intro r hr
        obtain rfl : s₃.next = r := by simpa using hr
        exact ⟨ty, returns, s₃.typeOf?_defined ty⟩
    have htail := tail.grows.types_le
    refine .append (.append ?_ ?_) (.cons rfl (hop.mono htail) ih)
    · exact ((ihArguments.mono hbind).mono hdefined).mono htail
    · exact (hcopies.mono hdefined).mono htail

/-- An operation that reads the register of a lowered expression, behind its operations. -/
theorem LowersExprs.typed_snoc {e : Expr} {r : Register} {ops : List Op} {op : Op}
    (h : LowersExprs scope s [e] [r] ops s₁) (grows : s₁.Grows scope.shared.registry s')
    (hflat : op.nested = [op])
    (hop : ∀ ty, s'.registers.typeOf? r = some ty → op.WellTyped (s'.types scope.shared)) :
    (s'.types scope.shared).Types (ops ++ [op]) := by
  obtain ⟨ty, hty⟩ := h.exists_type (show r ∈ [r] by simp)
  exact (h.typed.mono grows.types_le).append
    (.cons hflat (hop ty (grows.types_le.register hty)) .nil)

theorem LowersSimple.typed {statement : Statement} {ops : List Op}
    (h : LowersSimple scope s statement ops s') : (s'.types scope.shared).Types ops := by
  have hR := Session.grows_relation scope
  cases h with
  | declare declares => exact .nil
  | @declareInit s₁ s₂ s₃ s' name ty e r ops declares value assigns reads =>
    have hafter := hR.trans (hR.assignLocal assigns) (hR.markRead reads)
    have hname := (hR.trans (hR.trans (hR.reserved s₁ ty) value.grows) hafter).types_le.slot
      (Lower.declareLocal_typeOf? declares)
    exact value.typed_snoc hafter rfl fun source hsource => ⟨source, ty, hsource, hname⟩
  | @assign s₁ s₂ s' name ty e r ops known value assigns reads =>
    have hafter := hR.trans (hR.assignLocal assigns) (hR.markRead reads)
    have hname := (hR.trans value.grows hafter).types_le.slot (s.indexed.typeOf?_of_typeOf known)
    exact value.typed_snoc hafter rfl fun source hsource => ⟨source, ty, hsource, hname⟩
  | eval noCall value => exact value.typed
  | @evalCall s₁ s₂ s₃ s' callee args symbol signature sources bound argOps copies target arity
      arguments binding dropped =>
    have hbind := (binding.grows scope).types_le
    have hdropped := (hR.resultRegister dropped).types_le
    have hcopies := binding.typed scope arguments.has
    have hop : (Op.call none symbol bound).WellTyped (s'.types scope.shared) := by
      refine ⟨{ signature with symbol }, ?_, ?_, by simp⟩
      · exact hdropped.calls (hbind.calls (arguments.grows.types_le.calls
          (Scope.lowerCallee_calls target)))
      · exact binding.bound_types.imp fun _ _ => hdropped.register
    refine .append (.append ?_ (hcopies.mono hdropped)) (.cons rfl hop .nil)
    exact (arguments.typed.mono hbind).mono hdropped
  | printValue value typed printer reads =>
    have hafter := hR.markRead reads
    refine value.typed_snoc hafter rfl fun _ _ => ⟨_, hafter.types_le.register typed, ?_⟩
    exact .inr (Routine.param_of_printer? printer)
  | printChar value reads =>
    exact value.typed_snoc (hR.markRead reads) rfl fun ty hty => ⟨ty, hty, .inl rfl⟩
  | printNewline => exact .cons rfl rfl .nil
  | printText short => exact .cons rfl rfl .nil

theorem LowersReturn.typed {value : Option Expr} {ops : List Op}
    (h : LowersReturn scope s value ops s') : (s'.types scope.shared).Types ops := by
  cases h with
  | value declared value reads =>
    refine value.typed_snoc ((Session.grows_relation scope).markRead reads) rfl fun ty hty r hr => ?_
    obtain rfl := by simpa using hr
    exact ⟨ty, hty⟩
  | nothing declared => exact .cons rfl (by simp [Op.WellTyped]) .nil

/-- The operations of a lowered block are well typed, at every depth. -/
theorem LowersBlock.typed {block : List Statement} {flow : Flow} {ops : List Op}
    (h : LowersBlock scope s block flow ops s') : (s'.types scope.shared).Types ops := by
  have hR := Session.grows_relation scope
  induction h with
  | nil s => exact .nil
  | simple first tail ih => exact (first.typed.mono tail.grows.types_le).append ih
  | ret last => exact last.typed
  | @branchReturns s s₁ s₂ s₃ s₄ c r thenBlock elseBlock rest condOps thenOps elseOps condition
      reads thenArm elseArm ihThen ihElse =>
    have helse := hR.trans (hR.restored s₃ s₂.locals.assigned) elseArm.grows
    have harms := hR.trans (hR.markRead reads) (hR.trans thenArm.grows helse)
    obtain ⟨ty, hty⟩ := condition.exists_type (show r ∈ [r] by simp)
    exact (condition.typed.mono harms.types_le).append
      (.branch ⟨ty, harms.types_le.register hty⟩ (ihThen.mono helse.types_le) ihElse .nil)
  | @branch s s₁ s₂ s₃ s₄ s' c r thenBlock elseBlock rest thenFlow elseFlow flow condOps thenOps
      elseOps restOps condition reads thenArm elseArm joins tail ihThen ihElse ih =>
    have hrest := hR.trans (hR.restored s₄ _) tail.grows
    have helse := hR.trans (hR.restored s₃ s₂.locals.assigned) (hR.trans elseArm.grows hrest)
    have harms := hR.trans (hR.markRead reads) (hR.trans thenArm.grows helse)
    obtain ⟨ty, hty⟩ := condition.exists_type (show r ∈ [r] by simp)
    refine (condition.typed.mono harms.types_le).append ?_
    exact .branch ⟨ty, harms.types_le.register hty⟩ (ihThen.mono helse.types_le)
      (ihElse.mono hrest.types_le) ih
  | @loop s s₁ s₂ s₃ s' c r body rest bodyFlow flow condOps bodyOps restOps condition reads inner
      tail ihInner ih =>
    have hrest := hR.trans (hR.restored s₃ s.locals.assigned) tail.grows
    have hpass := hR.trans (hR.markRead reads) (hR.trans inner.grows hrest)
    obtain ⟨ty, hty⟩ := condition.exists_type (show r ∈ [r] by simp)
    exact .loop ⟨ty, hpass.types_le.register hty⟩ (condition.typed.mono hpass.types_le)
      (ihInner.mono hrest.types_le) ih

/-- Parameters are no aliases. -/
theorem LowersParams.aliases_eq {params : List Parameter} (h : LowersParams s params s') :
    s'.aliases = s.aliases := by
  induction h with
  | nil s => rfl
  | cons declares tail ih =>
    obtain ⟨_, _, rfl⟩ := Lower.declareParam_ok.1 declares
    exact ih

/-- The types that the tables of a function give. -/
def LoweredFunction.types (code : LoweredFunction) (Calls : Symbol → Signature → Prop) :
    TypeContext :=
  ⟨code.registerType?, code.localType?, Calls⟩

namespace LowersFunction

variable {shared : Shared} {function : SourceFunction} {lowering : FunctionLowering}

theorem typed (h : LowersFunction shared function lowering) :
    (lowering.function.types (shared.Calls lowering.aliases)).Types lowering.function.ops := by
  cases h with
  | @intro symbol s s' flow ops named params body returns =>
    have hnumbered : s'.registers.Numbered := body.extends.numbered (params.extends.numbered rfl)
    refine TypeContext.Types.mono (Γ := s'.types shared)
      ⟨fun {r ty} hty => ?_, fun hty => hty, fun hcalls => hcalls⟩ body.typed
    exact (RegisterTable.find?_register hnumbered r).trans hty

theorem resolves (h : LowersFunction shared function lowering) :
    shared.registry.Resolves lowering.aliases := by
  cases h with
  | @intro symbol s s' flow ops named params body returns =>
    refine body.grows.resolves ?_
    rw [params.aliases_eq]
    intro symbol id hfound
    simp [SourceFunction.session] at hfound

end LowersFunction

end ScalarC
