import ScalarC.Proofs.Paths.Source

/-!
# Where lowering stops

A chain of steps fails if one of the steps does, behind steps that succeed. So a block that is
refused has a statement at which lowering stops, in the block itself or inside of a branch or
a loop, and everything before it is lowered. This module finds that statement for the two
errors that are about control paths, an unassigned local and a missing return. The other
errors are only told apart from these.

## Main definitions

* `Session.Blames`: what an error tells about the expression in which it arose.
* `StopsAt`, `StopsBlock`: the statement at which lowering stops, and the way to it.
-/

namespace ScalarC

/-! ## Failing steps -/

section Except

variable {ε α β : Type} {x : Except ε α}

theorem bind_eq_error {f : α → Except ε β} {e : ε} :
    (x >>= f) = .error e ↔ x = .error e ∨ ∃ a, x = .ok a ∧ f a = .error e := by
  cases x <;> simp [bind, Except.bind]

theorem map_eq_error {f : α → β} {e : ε} : x.map f = .error e ↔ x = .error e := by
  cases x <;> simp [Except.map]

end Except

namespace Lower

variable {α β : Type} {s : Session} {cause : CompileError}

theorem bind_error {x : Lower α} {f : α → Lower β} {abort : Abort} :
    (x >>= f) s = .error abort ↔
      x s = .error abort ∨ ∃ a s₁, x s = .ok (a, s₁) ∧ f a s₁ = .error abort := by
  simp only [bind, StateT.bind, Except.bind]
  cases h : x s with
  | error e => simp
  | ok result =>
    obtain ⟨a, s₁⟩ := result
    simp

@[simp] theorem pure_error {a : α} {abort : Abort} :
    (pure a : Lower α) s = .error abort ↔ False :=
  iff_false_intro nofun

/-- A last step that only wraps up the result does not fail. -/
theorem bind_pure_error {x : Lower α} {f : α → β} {abort : Abort} :
    (x >>= fun a => pure (f a)) s = .error abort ↔ x s = .error abort := by
  simp only [bind_error, pure_error, and_false, exists_false, or_false]

@[simp] theorem refuse_error {cause' : CompileError} :
    (refuse cause' : Lower α) s = .error (.refused cause) ↔ cause' = cause := by
  simp [refuse]

@[simp] theorem lift_error {result : Except CompileError α} :
    lift result s = .error (.refused cause) ↔ result = .error cause := by
  cases result <;> simp [lift]

@[simp] theorem get_error {abort : Abort} :
    (get : Lower Session) s = .error abort ↔ False :=
  iff_false_intro nofun

@[simp] theorem reserve_error {ty : Scalar} {abort : Abort} :
    reserve ty s = .error abort ↔ False :=
  iff_false_intro nofun

@[simp] theorem define_error {ty : Scalar} {abort : Abort} :
    define ty s = .error abort ↔ False := by
  have hok : define ty s = .ok (s.next, s.defined ty) := define_ok.2 ⟨rfl, rfl⟩
  simp [hok]

/-- A step that fails for a missing register does not refuse the unit. -/
@[simp] theorem markRead_error {r : Register} :
    markRead r s = .error (.refused cause) ↔ False := by
  simp only [markRead]
  cases s.registers.markRead? r <;> simp

@[simp] theorem typeOf_error {r : Register} :
    typeOf r s = .error (.refused cause) ↔ False := by
  simp only [typeOf]
  cases s.registers.typeOf? r <;> simp

@[simp] theorem assigned_error {abort : Abort} : assigned s = .error abort ↔ False :=
  iff_false_intro nofun

@[simp] theorem restoreAssigned_error {slots : SlotSet} {abort : Abort} :
    restoreAssigned slots s = .error abort ↔ False :=
  iff_false_intro nofun

@[simp] theorem addString_error {text : String} {abort : Abort} :
    addString text s = .error abort ↔ False :=
  iff_false_intro nofun

/-- A step on the local table is refused in the session where it is in the table. -/
theorem onLocals_error {step : LocalStep α} {keeps : step.KeepsIndex} :
    onLocals step keeps s = .error (.refused cause) ↔ step.outcome s.locals = .error cause := by
  unfold onLocals
  split
  · rename_i a table h
    simp [LocalStep.outcome_ok h]
  · rename_i cause' table h
    simp [LocalStep.outcome_error h]

@[simp] theorem readLocal_error {name : String} :
    readLocal name s = .error (.refused cause) ↔ s.locals.read name = .error cause :=
  onLocals_error

@[simp] theorem assignLocal_error {name : String} :
    assignLocal name s = .error (.refused cause) ↔ s.locals.assign name = .error cause :=
  bind_pure_error.trans onLocals_error

@[simp] theorem declareLocal_error {name : String} {ty : Scalar} :
    declareLocal name ty s = .error (.refused cause) ↔
      s.locals.declareLocal name ty = .error cause := by
  rw [LocalTable.declareLocal, map_eq_error]
  exact onLocals_error

@[simp] theorem declareParam_error {name : String} {ty : Scalar} :
    declareParam name ty s = .error (.refused cause) ↔
      s.locals.declareParam name ty = .error cause := by
  rw [LocalTable.declareParam, map_eq_error]
  exact onLocals_error

end Lower

/-! ## Errors about control paths -/

/-- Whether an error is about what happens on the paths of a function. -/
def CompileError.isPathError : CompileError → Bool
  | unassignedLocal _ _ | missingReturn _ => true
  | _ => false

namespace LocalTable

variable {t : LocalTable} {name : String} {ty : Scalar} {cause : CompileError}

/-- A local has a slot, and the slot is not assigned. -/
def Unassigned (t : LocalTable) (name : String) : Prop :=
  ∃ i, t.place? name = some i ∧ i ∉ t.assigned

theorem slot_error (h : t.slot name = .error cause) : cause.isPathError = false := by
  unfold slot at h
  split at h
  · cases h
  · cases h
    rfl

theorem typeOf_error (h : t.typeOf name = .error cause) : cause.isPathError = false := by
  simp only [typeOf, bind_eq_error, pure, Except.pure, reduceCtorEq, and_false, exists_false,
    or_false] at h
  exact slot_error h

theorem assign_error (h : t.assign name = .error cause) : cause.isPathError = false := by
  rcases LocalStep.assign_cases t name with ⟨_, hstep⟩ | ⟨_, _, _, hstep⟩
  · rw [assign, LocalStep.outcome_error hstep] at h
    cases h
    rfl
  · simp [assign, LocalStep.outcome_ok hstep] at h

/-- Neither of the two errors of a declaration is about paths. -/
theorem isPathError_of_declaration
    (h : cause = .invalidIdentifier name ∨ cause = .duplicateLocal t.function name) :
    cause.isPathError = false := by
  rcases h with rfl | rfl <;> rfl

theorem declareParam_error (h : t.declareParam name ty = .error cause) :
    cause.isPathError = false := by
  rcases LocalStep.declareParam_cases t name ty with ⟨cause', hcause, hstep⟩ | ⟨_, _, hstep⟩
  · simp only [declareParam, LocalStep.outcome_error hstep, Except.map, Except.error.injEq] at h
    exact h ▸ isPathError_of_declaration hcause
  · simp [declareParam, LocalStep.outcome_ok hstep, Except.map] at h

theorem declareLocal_error (h : t.declareLocal name ty = .error cause) :
    cause.isPathError = false := by
  rcases LocalStep.declareLocal_cases t name ty with ⟨cause', hcause, hstep⟩
    | ⟨_, _, _, _, _, hstep⟩ | ⟨_, _, hstep⟩
  · simp only [declareLocal, LocalStep.outcome_error hstep, Except.map, Except.error.injEq] at h
    exact h ▸ isPathError_of_declaration hcause
  · simp [declareLocal, LocalStep.outcome_ok hstep, Except.map] at h
  · simp [declareLocal, LocalStep.outcome_ok hstep, Except.map] at h

theorem Indexed.read_error (h : t.Indexed) (hread : t.read name = .error cause) :
    cause.isPathError = false
      ∨ cause = .unassignedLocal t.function name ∧ t.Unassigned name := by
  rcases LocalStep.read_cases t name with ⟨cause', hcause, hstep⟩ | ⟨_, _, _, _, hstep⟩
  · rw [LocalTable.read, LocalStep.outcome_error hstep] at hread
    cases hread
    rcases hcause with ⟨rfl, _⟩ | ⟨slot, i, rfl, hslot, hmem⟩
    · exact .inl rfl
    · refine .inr ⟨rfl, i, ?_, hmem⟩
      simp [h.place?_eq, hslot]
  · simp [LocalTable.read, LocalStep.outcome_ok hstep] at hread

end LocalTable

namespace Session

/-- What an error tells about the expression in which it arose: an unassigned local is among
those that the expression reads, and no return is missing. -/
structure Blames (s : Session) (names : List String) (cause : CompileError) : Prop where
  unassigned : ∀ title name, cause = .unassignedLocal title name →
    name ∈ names ∧ s.locals.Unassigned name
  notReturn : ∀ title, cause ≠ .missingReturn title

namespace Blames

variable {s s₁ : Session} {names names' : List String} {cause : CompileError}

theorem of_other (h : cause.isPathError = false) : s.Blames names cause := by
  constructor
  · rintro title name rfl
    cases h
  · rintro title rfl
    cases h

theorem mono (h : s.Blames names cause) (hsub : ∀ name ∈ names, name ∈ names') :
    s.Blames names' cause :=
  ⟨fun title name heq => (h.unassigned title name heq).imp_left (hsub name), h.notReturn⟩

/-- Evaluating other expressions before changes nothing about the locals. -/
theorem of_evaluates (hstep : s.Evaluates s₁) (h : s₁.Blames names cause) :
    s.Blames names cause := by
  refine ⟨fun title name heq => ?_, h.notReturn⟩
  obtain ⟨hmem, i, hplace, hi⟩ := h.unassigned title name heq
  rw [LocalTable.place?, hstep.declared] at hplace
  rw [hstep.assigned] at hi
  exact ⟨hmem, i, hplace, hi⟩

theorem of_read {name : String} (h : s.locals.read name = .error cause) :
    s.Blames [name] cause := by
  rcases s.indexed.read_error h with hother | ⟨rfl, hunassigned⟩
  · exact of_other hother
  · refine ⟨?_, nofun⟩
    rintro _ _ ⟨⟩
    exact ⟨List.mem_singleton_self _, hunassigned⟩

end Blames

end Session

namespace Scope

variable {scope : Scope} {s : Session} {cause : CompileError}

/-! ## Expressions -/

theorem literalValue_error {value : Int} {ty : Scalar}
    (h : scope.literalValue value ty s = .error (.refused cause)) : cause.isPathError = false := by
  unfold literalValue at h
  split at h
  · cases h
  · cases hoverflow : scope.shared.settings.overflow with
    | reject =>
      simp only [hoverflow, Lower.refuse_error] at h
      subst h
      rfl
    | warn =>
      simp only [hoverflow] at h
      cases h

theorem lowerLiteral_error {value : Int64} {ty : Scalar}
    (h : scope.lowerLiteral value ty s = .error (.refused cause)) : cause.isPathError = false := by
  simp only [lowerLiteral, Lower.bind_error, Lower.define_error, Lower.pure_error, and_false,
    exists_false, or_false] at h
  exact literalValue_error h

theorem resolveSymbol_error {registry : Registry} {spelling : String}
    (h : registry.resolveSymbol spelling = .error cause) : cause.isPathError = false := by
  unfold Registry.resolveSymbol at h
  split at h
  · cases h
  · split at h
    · split at h
      all_goals
        cases h
        rfl
    · split at h
      · split at h
        · cases h
        · cases h
          rfl
      · cases h
        rfl

theorem lowerCallee_error {callee : Callee}
    (h : scope.lowerCallee callee s = .error (.refused cause)) : cause.isPathError = false := by
  cases callee with
  | function id =>
    cases hsignature : scope.shared.signature? id with
    | some signature =>
      simp only [lowerCallee, hsignature] at h
      cases h
    | none =>
      simp only [lowerCallee, hsignature, Lower.refuse_error] at h
      subst h
      rfl
  | symbol spelling =>
    simp only [lowerCallee, Lower.bind_error, Lower.lift_error] at h
    rcases h with hresolve | ⟨resolved, s₁, _, h⟩
    · exact resolveSymbol_error hresolve
    · cases hsignature : scope.shared.signature? resolved.target with
      | some signature =>
        simp only [hsignature] at h
        cases halias : resolved.isAlias <;> simp only [halias] at h <;> cases h
      | none =>
        simp only [hsignature, Lower.refuse_error] at h
        subst h
        rfl

theorem bindArgs_error (sources : List Register) (types : List Scalar) :
    bindArgs sources types s ≠ .error (.refused cause) := by
  induction sources generalizing types s with
  | nil => simp [bindArgs]
  | cons src sources ih =>
    cases types with
    | nil => simp [bindArgs]
    | cons ty types =>
      simp only [bindArgs, Lower.bind_error, Lower.markRead_error, Lower.define_error,
        Lower.pure_error, ih, ne_eq]
      simp

theorem resultRegister_error {returnType : Option Scalar} {keep : Bool} :
    resultRegister returnType keep s ≠ .error (.refused cause) := by
  cases returnType with
  | none => simp only [resultRegister, ne_eq, Lower.pure_error, not_false_eq_true]
  | some ty =>
    cases keep <;>
      simp only [resultRegister, Bool.false_eq_true, if_false, if_true, Lower.bind_error,
        Lower.reserve_error, Lower.define_error, Lower.pure_error, and_false, exists_false, or_false,
        ne_eq, not_false_eq_true]

/-- A call fails for a reason of its own or in its arguments. -/
theorem lowerCall_error {callee : Callee} {arity : Nat} {keep : Bool}
    {lowerArgs : Lower (List Register × List Op)}
    (h : scope.lowerCall callee arity lowerArgs keep s = .error (.refused cause)) :
    cause.isPathError = false
      ∨ ∃ s₁, s.Evaluates s₁ ∧ lowerArgs s₁ = .error (.refused cause) := by
  simp only [lowerCall, Lower.bind_error] at h
  rcases h with hcallee | ⟨target, s₁, hcallee, h⟩
  · exact .inl (lowerCallee_error hcallee)
  · split at h
    · cases h
      exact .inl rfl
    · simp only [Lower.bind_error, bindArgs_error, resultRegister_error, Lower.pure_error,
        and_false, exists_false, or_false] at h
      exact .inr ⟨s₁, lowerCallee_evaluates hcallee, h⟩

mutual

theorem lowerExpr_blames {s : Session} (e : Expr)
    (h : scope.lowerExpr e s = .error (.refused cause)) : s.Blames e.reads cause := by
  cases e with
  | literal lit =>
    simp only [lowerExpr] at h
    exact .of_other (lowerLiteral_error h)
  | var name =>
    simp only [lowerExpr, Lower.bind_error, Lower.readLocal_error, Lower.define_error,
      Lower.pure_error, and_false, exists_false, or_false] at h
    exact .of_read h
  | constant name =>
    cases hconstant : scope.shared.constant? name with
    | some constant =>
      simp only [lowerExpr, hconstant] at h
      exact .of_other (lowerLiteral_error h)
    | none =>
      simp only [lowerExpr, hconstant, Lower.refuse_error] at h
      subst h
      exact .of_other rfl
  | binary op lhs rhs =>
    simp only [lowerExpr, Lower.bind_error] at h
    rcases h with hleft | ⟨⟨left, leftOps⟩, s₁, hleft, hright | ⟨_, _, _, h⟩⟩
    · exact (lowerExpr_blames lhs hleft).mono fun _ => List.mem_append_left _
    · have hstep := (lowerExpr_derives_one hleft).evaluates
      exact ((lowerExpr_blames rhs hright).of_evaluates hstep).mono fun _ =>
        List.mem_append_right _
    · -- behind the operands only registers are looked up
      exfalso
      cases hcomparison : op.isComparison <;>
        simp only [hcomparison, Bool.false_eq_true, if_false, if_true, Lower.bind_error,
          Lower.markRead_error, Lower.typeOf_error, Lower.define_error, Lower.pure_error, and_false,
          exists_false, or_false] at h
  | cast value ty =>
    simp only [lowerExpr, Lower.bind_error, Lower.markRead_error, Lower.define_error,
      Lower.pure_error, and_false, exists_false, or_false] at h
    exact lowerExpr_blames value h
  | call callee args =>
    simp only [lowerExpr, Lower.bind_error] at h
    rcases h with hcall | ⟨⟨dest, ops⟩, _, _, h⟩
    · rcases lowerCall_error hcall with hother | ⟨s₁, hstep, hargs⟩
      · exact .of_other hother
      · exact (lowerArgs_blames args hargs).of_evaluates hstep
    · cases dest with
      | some dest => cases h
      | none =>
        cases h
        exact .of_other rfl

theorem lowerArgs_blames {s : Session} (args : List Expr)
    (h : scope.lowerArgs args s = .error (.refused cause)) :
    s.Blames (Expr.readsAll args) cause := by
  cases args with
  | nil => cases h
  | cons arg rest =>
    simp only [lowerArgs, Lower.bind_error, Lower.pure_error, and_false, exists_false,
      or_false] at h
    rcases h with hfirst | ⟨⟨r, ops⟩, s₁, hfirst, hrest⟩
    · exact (lowerExpr_blames arg hfirst).mono fun _ => List.mem_append_left _
    · have hstep := (lowerExpr_derives_one hfirst).evaluates
      exact ((lowerArgs_blames rest hrest).of_evaluates hstep).mono fun _ =>
        List.mem_append_right _

end

end Scope

/-! ## Statements -/

/-- Lowering stops at a statement: in one of its expressions, or at a return without the value
that the function has to return. -/
inductive StopsAt (scope : Scope) (cause : CompileError) : Session → Statement → Prop where
  | declare {s s₁ : Session} {name : String} {ty : Scalar} {e : Expr}
      (declares : Lower.declareLocal name ty s = .ok ((), s₁))
      (value : (s₁.reserved ty).Blames e.reads cause) :
      StopsAt scope cause s (.declare name ty (some e))
  | assign {s : Session} {name : String} {e : Expr} (value : s.Blames e.reads cause) :
      StopsAt scope cause s (.assign name e)
  | eval {s : Session} {e : Expr} (value : s.Blames e.reads cause) :
      StopsAt scope cause s (.eval e)
  | print {s : Session} {what : Print} (value : s.Blames what.reads cause) :
      StopsAt scope cause s (.print what)
  | ret {s : Session} {e : Expr} (value : s.Blames e.reads cause) :
      StopsAt scope cause s (.ret (some e))
  | retNothing {s : Session} (declared : scope.function.returnType.isSome)
      (missing : cause = .missingReturn scope.title) : StopsAt scope cause s (.ret none)
  | branch {s : Session} {c : Expr} {thenBlock elseBlock : List Statement}
      (test : s.Blames c.reads cause) : StopsAt scope cause s (.branch c thenBlock elseBlock)
  | loop {s : Session} {c : Expr} {body : List Statement} (test : s.Blames c.reads cause) :
      StopsAt scope cause s (.loop c body)
  | other {s : Session} {statement : Statement} (other : cause.isPathError = false) :
      StopsAt scope cause s statement

/-- Lowering stops in a block: at its first statement, in a block of that statement, or behind
it. -/
inductive StopsBlock (scope : Scope) (cause : CompileError) :
    Session → List Statement → Prop where
  | here {s : Session} {statement : Statement} {rest : List Statement}
      (stops : StopsAt scope cause s statement) : StopsBlock scope cause s (statement :: rest)
  | thenArm {s s₁ s₂ : Session} {c : Expr} {r : Register} {condOps : List Op}
      {thenBlock elseBlock rest : List Statement}
      (condition : LowersExprs scope s [c] [r] condOps s₁)
      (reads : Lower.markRead r s₁ = .ok ((), s₂))
      (arm : StopsBlock scope cause s₂ thenBlock) :
      StopsBlock scope cause s (.branch c thenBlock elseBlock :: rest)
  | elseArm {s s₁ s₂ s₃ : Session} {c : Expr} {r : Register} {thenFlow : Flow}
      {condOps thenOps : List Op} {thenBlock elseBlock rest : List Statement}
      (condition : LowersExprs scope s [c] [r] condOps s₁)
      (reads : Lower.markRead r s₁ = .ok ((), s₂))
      (thenArm : LowersBlock scope s₂ thenBlock thenFlow thenOps s₃)
      (arm : StopsBlock scope cause (s₃.restored s₂.locals.assigned) elseBlock) :
      StopsBlock scope cause s (.branch c thenBlock elseBlock :: rest)
  | body {s s₁ s₂ : Session} {c : Expr} {r : Register} {condOps : List Op}
      {block rest : List Statement}
      (condition : LowersExprs scope s [c] [r] condOps s₁)
      (reads : Lower.markRead r s₁ = .ok ((), s₂))
      (inner : StopsBlock scope cause s₂ block) :
      StopsBlock scope cause s (.loop c block :: rest)
  | later {s s₁ : Session} {statement : Statement} {rest : List Statement} {ops : List Op}
      (first : LowersBlock scope s [statement] .continues ops s₁)
      (tail : StopsBlock scope cause s₁ rest) : StopsBlock scope cause s (statement :: rest)

namespace Scope

variable {scope : Scope} {s : Session} {cause : CompileError}

theorem lowerStore_error {name : String} {src : Register}
    (h : lowerStore name src s = .error (.refused cause)) : cause.isPathError = false := by
  simp only [lowerStore, Lower.bind_error, Lower.assignLocal_error, Lower.markRead_error,
    Lower.pure_error, and_false, exists_false, or_false] at h
  exact LocalTable.assign_error h

theorem lowerDeclare_stops {name : String} {ty : Scalar} {init : Option Expr}
    (h : scope.lowerDeclare name ty init s = .error (.refused cause)) :
    StopsAt scope cause s (.declare name ty init) := by
  simp only [lowerDeclare, Lower.bind_error, Lower.declareLocal_error, Lower.reserve_error,
    Lower.reserve_ok, false_or] at h
  rcases h with hdeclare | ⟨_, s₁, hdeclare, _, _, ⟨_, rfl⟩, h⟩
  · exact .other (LocalTable.declareLocal_error hdeclare)
  · cases init with
    | none => cases h
    | some e =>
      simp only [Lower.bind_error, Lower.pure_error, and_false, exists_false, or_false] at h
      rcases h with hvalue | ⟨_, _, _, hstore⟩
      · exact .declare hdeclare (lowerExpr_blames e hvalue)
      · exact .other (lowerStore_error hstore)

theorem lowerAssign_stops {name : String} {e : Expr}
    (h : scope.lowerAssign name e s = .error (.refused cause)) :
    StopsAt scope cause s (.assign name e) := by
  simp only [lowerAssign, Lower.bind_error, Lower.get_error, Lower.get_ok, Lower.lift_error,
    Lower.lift_ok, Lower.pure_error, and_false, exists_false, or_false, false_or] at h
  obtain ⟨_, _, ⟨rfl, rfl⟩, htype | ⟨_, _, ⟨_, rfl⟩, hvalue | ⟨_, _, _, hstore⟩⟩⟩ := h
  · exact .other (LocalTable.typeOf_error htype)
  · exact .assign (lowerExpr_blames e hvalue)
  · exact .other (lowerStore_error hstore)

theorem lowerEval_stops {e : Expr} (h : scope.lowerEval e s = .error (.refused cause)) :
    StopsAt scope cause s (.eval e) := by
  unfold lowerEval at h
  split at h
  · rename_i callee args
    simp only [Lower.bind_error, Lower.pure_error, and_false, exists_false, or_false] at h
    rcases lowerCall_error h with hother | ⟨s₁, hstep, hargs⟩
    · exact .other hother
    · exact .eval ((lowerArgs_blames args hargs).of_evaluates hstep)
  · simp only [Lower.bind_error, Lower.pure_error, and_false, exists_false, or_false] at h
    exact .eval (lowerExpr_blames e h)

theorem lowerPrint_stops {what : Print} (h : scope.lowerPrint what s = .error (.refused cause)) :
    StopsAt scope cause s (.print what) := by
  cases what with
  | value e =>
    simp only [lowerPrint, Lower.bind_error, Lower.typeOf_error, false_or] at h
    rcases h with hvalue | ⟨_, _, _, ty, _, _, h⟩
    · exact .print (lowerExpr_blames e hvalue)
    · cases hprinter : Routine.printer? ty with
      | some routine =>
        simp only [hprinter, Lower.bind_error, Lower.markRead_error, Lower.pure_error, and_false,
          exists_false, or_false] at h
      | none =>
        simp only [hprinter, Lower.refuse_error] at h
        subst h
        exact .other rfl
  | char e =>
    simp only [lowerPrint, Lower.bind_error, Lower.markRead_error, Lower.pure_error, and_false,
      exists_false, or_false] at h
    exact .print (lowerExpr_blames e h)
  | newline => cases h
  | text t =>
    simp only [lowerPrint, lowerText] at h
    split at h
    · simp only [Lower.refuse_error] at h
      subst h
      exact .other rfl
    · simp only [Lower.bind_error, Lower.addString_error, Lower.pure_error, and_false, exists_false,
        or_false] at h

theorem lowerReturn_stops {value : Option Expr}
    (h : scope.lowerReturn value s = .error (.refused cause)) :
    StopsAt scope cause s (.ret value) := by
  cases value with
  | some e =>
    cases hdeclared : scope.function.returnType with
    | some ty =>
      simp only [lowerReturn, hdeclared, Lower.bind_error, Lower.markRead_error, Lower.pure_error,
        and_false, exists_false, or_false] at h
      exact .ret (lowerExpr_blames e h)
    | none =>
      simp only [lowerReturn, hdeclared, Lower.refuse_error] at h
      subst h
      exact .other rfl
  | none =>
    cases hdeclared : scope.function.returnType with
    | some ty =>
      simp only [lowerReturn, hdeclared, Lower.refuse_error] at h
      exact .retNothing (by simp [hdeclared]) h.symm
    | none =>
      simp only [lowerReturn, hdeclared] at h
      cases h

mutual

/-- A statement that is refused stops every block that starts with it. -/
theorem lowerStatement_stops {s : Session} (statement : Statement)
    (h : scope.lowerStatement statement s = .error (.refused cause)) (rest : List Statement) :
    StopsBlock scope cause s (statement :: rest) := by
  cases statement with
  | declare name ty init =>
    simp only [lowerStatement, Lower.bind_pure_error] at h
    exact .here (lowerDeclare_stops h)
  | assign name value =>
    simp only [lowerStatement, Lower.bind_pure_error] at h
    exact .here (lowerAssign_stops h)
  | eval e =>
    simp only [lowerStatement, Lower.bind_pure_error] at h
    exact .here (lowerEval_stops h)
  | print what =>
    simp only [lowerStatement, Lower.bind_pure_error] at h
    exact .here (lowerPrint_stops h)
  | ret value =>
    simp only [lowerStatement, Lower.bind_pure_error] at h
    exact .here (lowerReturn_stops h)
  | branch c thenBlock elseBlock =>
    simp only [lowerStatement, Lower.bind_error, Lower.markRead_error, Lower.assigned_error,
      Lower.assigned_ok, Lower.restoreAssigned_error, Lower.restoreAssigned_ok, Lower.pure_error,
      and_false, exists_false, or_false, false_or] at h
    rcases h with hcond | ⟨⟨r, condOps⟩, s₁, hcond, _, s₂, hread, _, _, ⟨rfl, rfl⟩, h⟩
    · exact .here (.branch (lowerExpr_blames c hcond))
    · have condition := lowerExpr_derives_one hcond
      rcases h with hthen | ⟨⟨thenFlow, thenOps⟩, s₃, hthen, _, _, ⟨rfl, rfl⟩, _, _, rfl, helse⟩
      · exact .thenArm condition hread (lowerBlock_stops thenBlock hthen)
      · exact .elseArm condition hread (lowerBlock_derives thenBlock hthen)
          (lowerBlock_stops elseBlock helse)
  | loop c body =>
    simp only [lowerStatement, Lower.bind_error, Lower.markRead_error, Lower.assigned_error,
      Lower.assigned_ok, Lower.restoreAssigned_error, Lower.pure_error, and_false, exists_false,
      or_false, false_or] at h
    obtain ⟨_, _, ⟨rfl, rfl⟩, hcond | ⟨⟨r, condOps⟩, s₁, hcond, _, s₂, hread, hbody⟩⟩ := h
    · exact .here (.loop (lowerExpr_blames c hcond))
    · exact .body (lowerExpr_derives_one hcond) hread (lowerBlock_stops body hbody)

/-- A block that is refused has a statement at which lowering stops. -/
theorem lowerBlock_stops {s : Session} (block : List Statement)
    (h : scope.lowerBlock block s = .error (.refused cause)) : StopsBlock scope cause s block := by
  cases block with
  | nil => cases h
  | cons statement rest =>
    simp only [lowerBlock, Lower.bind_error] at h
    rcases h with hfirst | ⟨⟨flow, ops⟩, s₁, hfirst, h⟩
    · exact lowerStatement_stops statement hfirst rest
    · have first := lowerStatement_derives statement hfirst
      cases flow with
      | returns => cases h
      | continues =>
        simp only [Lower.bind_error, Lower.pure_error, and_false, exists_false, or_false] at h
        exact .later (first [] _ _ _ (.nil s₁)) (lowerBlock_stops rest h)

end

theorem lowerParams_error {params : List Parameter}
    (h : lowerParams params s = .error (.refused cause)) : cause.isPathError = false := by
  induction params generalizing s with
  | nil => cases h
  | cons param rest ih =>
    simp only [lowerParams, Lower.bind_error, Lower.declareParam_error, Lower.reserve_error,
      false_or] at h
    rcases h with hdeclare | ⟨_, _, _, _, _, _, htail⟩
    · exact LocalTable.declareParam_error hdeclare
    · exact ih htail

end Scope

theorem Registry.resolve_error {registry : Registry} {id : FunctionId} {cause : CompileError}
    (h : registry.resolve id = .error cause) : cause.isPathError = false := by
  unfold resolve at h
  split at h
  · cases h
  · cases h
    rfl

/-- A function that is refused for what happens on its paths: lowering stops in the body, or
control reaches the end of the body where a value has to be returned. -/
theorem Shared.lowerFunction_stops {shared : Shared} {function : SourceFunction}
    {cause : CompileError} (h : shared.lowerFunction function = .error (.refused cause))
    (hpath : cause.isPathError = true) :
    ∃ s, LowersParams function.session function.params s
      ∧ (StopsBlock { shared, function } cause s function.body
        ∨ cause = .missingReturn function.title ∧ function.returnType.isSome
          ∧ ∃ ops s', LowersBlock { shared, function } s function.body .continues ops s') := by
  unfold lowerFunction at h
  cases hname : shared.registry.resolve function.id with
  | error other =>
    simp only [hname, Except.error.injEq, Abort.refused.injEq] at h
    subst h
    rw [Registry.resolve_error hname] at hpath
    cases hpath
  | ok symbol =>
    simp only [hname, bind_eq_error, pure, Except.pure, reduceCtorEq, and_false, exists_false,
      or_false] at h
    have hbody : Scope.lowerBody { shared, function } function.session
        = .error (.refused cause) := h
    simp only [Scope.lowerBody, Lower.bind_error] at hbody
    rcases hbody with hparams | ⟨_, s, hparams, hblock | ⟨⟨flow, ops⟩, s', hblock, hend⟩⟩
    · rw [Scope.lowerParams_error hparams] at hpath
      cases hpath
    · exact ⟨s, Scope.lowerParams_derives hparams, .inl (Scope.lowerBlock_stops _ hblock)⟩
    · refine ⟨s, Scope.lowerParams_derives hparams, .inr ?_⟩
      split at hend
      · rename_i hmissing
        simp only [Bool.and_eq_true, bne_iff_ne] at hmissing
        obtain ⟨hdeclared, hflow⟩ := hmissing
        simp only [Lower.refuse_error] at hend
        cases flow with
        | returns => exact absurd rfl hflow
        | continues => exact ⟨hend.symm, hdeclared, ops, s', Scope.lowerBlock_derives _ hblock⟩
      · cases hend

end ScalarC
