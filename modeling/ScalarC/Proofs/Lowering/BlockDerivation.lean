import ScalarC.Proofs.Lowering.Derivation

/-!
# Derivations of lowered blocks

The rules for statements. Statements without control flow become operations that
run one after the other; returns, branches and loops have rules over blocks. A
lowered function is a derivation for its body behind its parameters.
-/

namespace ScalarC

/-- The session with another set of assigned slots. -/
def Session.restored (s : Session) (slots : SlotSet) : Session :=
  { s with locals := s.locals.restore slots }

/-- A statement without control flow. -/
inductive LowersSimple (scope : Scope) : Session → Statement → List Op → Session → Prop where
  | declare {s s₁ : Session} {name : String} {ty : Scalar}
      (declares : Lower.declareLocal name ty s = .ok ((), s₁)) :
      LowersSimple scope s (.declare name ty none) [] (s₁.reserved ty)
  | declareInit {s s₁ s₂ s₃ s' : Session} {name : String} {ty : Scalar} {e : Expr}
      {r : Register} {ops : List Op}
      (declares : Lower.declareLocal name ty s = .ok ((), s₁))
      (value : LowersExprs scope (s₁.reserved ty) [e] [r] ops s₂)
      (assigns : Lower.assignLocal name s₂ = .ok ((), s₃))
      (reads : Lower.markRead r s₃ = .ok ((), s')) :
      LowersSimple scope s (.declare name ty (some e)) (ops ++ [.storeLocal name r]) s'
  | assign {s s₁ s₂ s' : Session} {name : String} {ty : Scalar} {e : Expr} {r : Register}
      {ops : List Op}
      (known : s.locals.typeOf name = .ok ty)
      (value : LowersExprs scope s [e] [r] ops s₁)
      (assigns : Lower.assignLocal name s₁ = .ok ((), s₂))
      (reads : Lower.markRead r s₂ = .ok ((), s')) :
      LowersSimple scope s (.assign name e) (ops ++ [.storeLocal name r]) s'
  | eval {s s' : Session} {e : Expr} {r : Register} {ops : List Op}
      (noCall : ∀ callee args, e ≠ .call callee args)
      (value : LowersExprs scope s [e] [r] ops s') :
      LowersSimple scope s (.eval e) ops s'
  | evalCall {s s₁ s₂ s₃ s' : Session} {callee : Callee} {args : List Expr} {symbol : Symbol}
      {signature : Signature} {sources bound : List Register} {argOps copies : List Op}
      (target : scope.lowerCallee callee s = .ok ((symbol, signature), s₁))
      (arity : args.length = signature.params.length)
      (arguments : LowersExprs scope s₁ args sources argOps s₂)
      (binding : BindsArgs s₂ sources signature.params bound copies s₃)
      (dropped : Scope.resultRegister signature.returnType false s₃ = .ok (none, s')) :
      LowersSimple scope s (.eval (.call callee args))
        (argOps ++ copies ++ [.call none symbol bound]) s'
  | printValue {s s₁ s' : Session} {e : Expr} {r : Register} {ty : Scalar} {routine : Routine}
      {ops : List Op}
      (value : LowersExprs scope s [e] [r] ops s₁)
      (typed : s₁.registers.typeOf? r = some ty)
      (printer : Routine.printer? ty = some routine)
      (reads : Lower.markRead r s₁ = .ok ((), s')) :
      LowersSimple scope s (.print (.value e)) (ops ++ [.print routine (.register r)]) s'
  | printChar {s s₁ s' : Session} {e : Expr} {r : Register} {ops : List Op}
      (value : LowersExprs scope s [e] [r] ops s₁)
      (reads : Lower.markRead r s₁ = .ok ((), s')) :
      LowersSimple scope s (.print (.char e)) (ops ++ [.print .char (.register r)]) s'
  | printNewline (s : Session) :
      LowersSimple scope s (.print .newline) [.print .newline .nothing] s
  | printText (s : Session) {text : String} (short : text.utf8ByteSize ≤ 65535) :
      LowersSimple scope s (.print (.text text)) [.print .string (.string s.strings.length)]
        { s with strings := s.strings ++ [text] }

/-- A return, with a value exactly in a function that declares a return type. -/
inductive LowersReturn (scope : Scope) :
    Session → Option Expr → List Op → Session → Prop where
  | value {s s₁ s' : Session} {ty : Scalar} {e : Expr} {r : Register} {ops : List Op}
      (declared : scope.function.returnType = some ty)
      (value : LowersExprs scope s [e] [r] ops s₁)
      (reads : Lower.markRead r s₁ = .ok ((), s')) :
      LowersReturn scope s (some e) (ops ++ [.ret (some r)]) s'
  | nothing (s : Session) (declared : scope.function.returnType = none) :
      LowersReturn scope s none [.ret none] s

/-- A block, up to the first statement behind which control cannot continue. -/
inductive LowersBlock (scope : Scope) :
    Session → List Statement → Flow → List Op → Session → Prop where
  | nil (s : Session) : LowersBlock scope s [] .continues [] s
  | simple {s s₁ s' : Session} {statement : Statement} {rest : List Statement} {flow : Flow}
      {ops restOps : List Op}
      (first : LowersSimple scope s statement ops s₁)
      (tail : LowersBlock scope s₁ rest flow restOps s') :
      LowersBlock scope s (statement :: rest) flow (ops ++ restOps) s'
  | ret {s s' : Session} {value : Option Expr} {rest : List Statement} {ops : List Op}
      (last : LowersReturn scope s value ops s') :
      LowersBlock scope s (.ret value :: rest) .returns ops s'
  | branchReturns {s s₁ s₂ s₃ s₄ : Session} {c : Expr} {r : Register}
      {thenBlock elseBlock rest : List Statement} {condOps thenOps elseOps : List Op}
      (condition : LowersExprs scope s [c] [r] condOps s₁)
      (reads : Lower.markRead r s₁ = .ok ((), s₂))
      (thenArm : LowersBlock scope s₂ thenBlock .returns thenOps s₃)
      (elseArm : LowersBlock scope (s₃.restored s₂.locals.assigned) elseBlock .returns
        elseOps s₄) :
      LowersBlock scope s (.branch c thenBlock elseBlock :: rest) .returns
        (condOps ++ [.branch r thenOps elseOps]) s₄
  | branch {s s₁ s₂ s₃ s₄ s' : Session} {c : Expr} {r : Register}
      {thenBlock elseBlock rest : List Statement} {thenFlow elseFlow flow : Flow}
      {condOps thenOps elseOps restOps : List Op}
      (condition : LowersExprs scope s [c] [r] condOps s₁)
      (reads : Lower.markRead r s₁ = .ok ((), s₂))
      (thenArm : LowersBlock scope s₂ thenBlock thenFlow thenOps s₃)
      (elseArm : LowersBlock scope (s₃.restored s₂.locals.assigned) elseBlock elseFlow
        elseOps s₄)
      (joins : thenFlow.join elseFlow = .continues)
      (tail : LowersBlock scope
        (s₄.restored (Flow.joinAssigned thenFlow elseFlow s₃.locals.assigned s₄.locals.assigned))
        rest flow restOps s') :
      LowersBlock scope s (.branch c thenBlock elseBlock :: rest) flow
        (condOps ++ .branch r thenOps elseOps :: restOps) s'
  | loop {s s₁ s₂ s₃ s' : Session} {c : Expr} {r : Register} {body rest : List Statement}
      {bodyFlow flow : Flow} {condOps bodyOps restOps : List Op}
      (condition : LowersExprs scope s [c] [r] condOps s₁)
      (reads : Lower.markRead r s₁ = .ok ((), s₂))
      (inner : LowersBlock scope s₂ body bodyFlow bodyOps s₃)
      (tail : LowersBlock scope (s₃.restored s.locals.assigned) rest flow restOps s') :
      LowersBlock scope s (.loop c body :: rest) flow (.loop condOps r bodyOps :: restOps) s'

namespace Scope

variable {scope : Scope}

theorem lowerStore_ok {s s' : Session} {name : String} {src : Register} {ops : List Op} :
    lowerStore name src s = .ok (ops, s') ↔
      ∃ s₁, Lower.assignLocal name s = .ok ((), s₁) ∧ Lower.markRead src s₁ = .ok ((), s')
        ∧ [.storeLocal name src] = ops := by
  simp only [lowerStore, Lower.bind_ok, Lower.pure_ok]
  constructor
  · rintro ⟨_, s₁, hassign, _, _, hread, rfl, rfl⟩
    exact ⟨s₁, hassign, hread, rfl⟩
  · rintro ⟨s₁, hassign, hread, rfl⟩
    exact ⟨(), s₁, hassign, (), s', hread, rfl, rfl⟩

/-- A result that is dropped has no register of its own to land in. -/
theorem resultRegister_dropped {s s' : Session} {returnType : Option Scalar}
    {dest : Option Register}
    (h : resultRegister returnType false s = .ok (dest, s')) : dest = none := by
  cases returnType with
  | none =>
    simp only [resultRegister, Lower.pure_ok] at h
    exact h.1.symm
  | some ty =>
    simp only [resultRegister, Bool.false_eq_true, if_false, Lower.bind_ok, Lower.reserve_ok,
      Lower.pure_ok] at h
    obtain ⟨_, _, _, rfl, _⟩ := h
    rfl

theorem lowerDeclare_derives {s s' : Session} {name : String} {ty : Scalar}
    {init : Option Expr} {ops : List Op}
    (h : scope.lowerDeclare name ty init s = .ok (ops, s')) :
    LowersSimple scope s (.declare name ty init) ops s' := by
  simp only [lowerDeclare, Lower.bind_ok, Lower.reserve_ok] at h
  obtain ⟨_, s₁, hdeclare, _, _, ⟨rfl, rfl⟩, h⟩ := h
  cases init with
  | none =>
    simp only [Lower.pure_ok] at h
    obtain ⟨rfl, rfl⟩ := h
    exact .declare hdeclare
  | some e =>
    simp only [Lower.bind_ok, Lower.pure_ok, lowerStore_ok, Prod.exists] at h
    obtain ⟨r, ops, s₂, hvalue, _, _, ⟨s₃, hassign, hread, rfl⟩, rfl, rfl⟩ := h
    exact .declareInit hdeclare (lowerExpr_derives_one hvalue) hassign hread

theorem lowerAssign_derives {s s' : Session} {name : String} {e : Expr} {ops : List Op}
    (h : scope.lowerAssign name e s = .ok (ops, s')) :
    LowersSimple scope s (.assign name e) ops s' := by
  simp only [lowerAssign, Lower.bind_ok, Lower.get_ok, Lower.lift_ok, Lower.pure_ok,
    lowerStore_ok, Prod.exists] at h
  obtain ⟨_, _, ⟨rfl, rfl⟩, ty, _, ⟨hknown, rfl⟩, r, ops, s₁, hvalue, _, _,
    ⟨s₂, hassign, hread, rfl⟩, rfl, rfl⟩ := h
  exact .assign hknown (lowerExpr_derives_one hvalue) hassign hread

theorem lowerEval_derives {s s' : Session} {e : Expr} {ops : List Op}
    (h : scope.lowerEval e s = .ok (ops, s')) : LowersSimple scope s (.eval e) ops s' := by
  unfold lowerEval at h
  split at h
  · rename_i callee args
    simp only [Lower.bind_ok, Lower.pure_ok, Prod.exists] at h
    obtain ⟨dest, _, _, hcall, rfl, rfl⟩ := h
    obtain ⟨symbol, signature, s₁, sources, argOps, s₂, bound, copies, s₃, htarget, harity,
      hargs, hbind, hdest, rfl⟩ := lowerCall_ok hcall
    obtain rfl := resultRegister_dropped hdest
    have arguments := lowerArgs_derives args hargs
    have binding := bindArgs_derives (arguments.length_eq.trans harity) hbind
    exact .evalCall htarget harity arguments binding hdest
  · rename_i noCall
    simp only [Lower.bind_ok, Lower.pure_ok, Prod.exists] at h
    obtain ⟨r, _, _, hvalue, rfl, rfl⟩ := h
    exact .eval noCall (lowerExpr_derives_one hvalue)

theorem lowerPrint_derives {s s' : Session} {what : Print} {ops : List Op}
    (h : scope.lowerPrint what s = .ok (ops, s')) :
    LowersSimple scope s (.print what) ops s' := by
  cases what with
  | value e =>
    simp only [lowerPrint, Lower.bind_ok, Lower.typeOf_ok, Prod.exists] at h
    obtain ⟨r, ops, s₁, hvalue, ty, _, ⟨hty, rfl⟩, h⟩ := h
    cases hprinter : Routine.printer? ty with
    | none => simp [hprinter] at h
    | some routine =>
      simp only [hprinter, Lower.bind_ok, Lower.pure_ok] at h
      obtain ⟨_, _, hread, rfl, rfl⟩ := h
      exact .printValue (lowerExpr_derives_one hvalue) hty hprinter hread
  | char e =>
    simp only [lowerPrint, Lower.bind_ok, Lower.pure_ok, Prod.exists] at h
    obtain ⟨r, ops, s₁, hvalue, _, _, hread, rfl, rfl⟩ := h
    exact .printChar (lowerExpr_derives_one hvalue) hread
  | newline =>
    simp only [lowerPrint, Lower.pure_ok] at h
    obtain ⟨rfl, rfl⟩ := h
    exact .printNewline s
  | text t =>
    simp only [lowerPrint, lowerText] at h
    split at h
    · simp at h
    · rename_i hshort
      simp only [Lower.bind_ok, Lower.addString_ok, Lower.pure_ok] at h
      obtain ⟨_, _, ⟨rfl, rfl⟩, rfl, rfl⟩ := h
      exact .printText s (by omega)

theorem lowerReturn_derives {s s' : Session} {value : Option Expr} {ops : List Op}
    (h : scope.lowerReturn value s = .ok (ops, s')) : LowersReturn scope s value ops s' := by
  cases value with
  | some e =>
    cases hdeclared : scope.function.returnType with
    | some ty =>
      simp only [lowerReturn, hdeclared, Lower.bind_ok, Lower.pure_ok, Prod.exists] at h
      obtain ⟨r, ops, s₁, hvalue, _, _, hread, rfl, rfl⟩ := h
      exact .value hdeclared (lowerExpr_derives_one hvalue) hread
    | none => simp [lowerReturn, hdeclared] at h
  | none =>
    cases hdeclared : scope.function.returnType with
    | some ty => simp [lowerReturn, hdeclared] at h
    | none =>
      simp only [lowerReturn, hdeclared, Lower.pure_ok] at h
      obtain ⟨rfl, rfl⟩ := h
      exact .nothing s hdeclared

/-- A statement with a derivation for the statements behind it, if control gets there. -/
def Derives (scope : Scope) (s : Session) (statement : Statement) (flow : Flow)
    (ops : List Op) (s₁ : Session) : Prop :=
  match flow with
  | .returns => ∀ rest, LowersBlock scope s (statement :: rest) .returns ops s₁
  | .continues => ∀ rest restFlow restOps s', LowersBlock scope s₁ rest restFlow restOps s' →
      LowersBlock scope s (statement :: rest) restFlow (ops ++ restOps) s'

theorem Derives.of_simple {s s₁ : Session} {statement : Statement} {ops : List Op}
    (h : LowersSimple scope s statement ops s₁) :
    Derives scope s statement .continues ops s₁ :=
  fun _ _ _ _ tail => .simple h tail

mutual

theorem lowerStatement_derives {s s₁ : Session} {flow : Flow} {ops : List Op}
    (statement : Statement) (h : scope.lowerStatement statement s = .ok ((flow, ops), s₁)) :
    Derives scope s statement flow ops s₁ := by
  cases statement with
  | declare name ty init =>
    simp only [lowerStatement, Lower.bind_ok, Lower.pure_ok, Prod.mk.injEq] at h
    obtain ⟨_, _, hops, ⟨rfl, rfl⟩, rfl⟩ := h
    exact .of_simple (lowerDeclare_derives hops)
  | assign name value =>
    simp only [lowerStatement, Lower.bind_ok, Lower.pure_ok, Prod.mk.injEq] at h
    obtain ⟨_, _, hops, ⟨rfl, rfl⟩, rfl⟩ := h
    exact .of_simple (lowerAssign_derives hops)
  | eval e =>
    simp only [lowerStatement, Lower.bind_ok, Lower.pure_ok, Prod.mk.injEq] at h
    obtain ⟨_, _, hops, ⟨rfl, rfl⟩, rfl⟩ := h
    exact .of_simple (lowerEval_derives hops)
  | print what =>
    simp only [lowerStatement, Lower.bind_ok, Lower.pure_ok, Prod.mk.injEq] at h
    obtain ⟨_, _, hops, ⟨rfl, rfl⟩, rfl⟩ := h
    exact .of_simple (lowerPrint_derives hops)
  | ret value =>
    simp only [lowerStatement, Lower.bind_ok, Lower.pure_ok, Prod.mk.injEq] at h
    obtain ⟨_, _, hops, ⟨rfl, rfl⟩, rfl⟩ := h
    exact fun rest => .ret (lowerReturn_derives hops)
  | branch c thenBlock elseBlock =>
    simp only [lowerStatement, Lower.bind_ok, Lower.assigned_ok, Lower.restoreAssigned_ok,
      Lower.pure_ok, Prod.exists, Prod.mk.injEq] at h
    obtain ⟨r, condOps, s₂, hcond, _, s₃, hread, _, _, ⟨rfl, rfl⟩, thenFlow, thenOps, s₄, hthen,
      _, _, ⟨rfl, rfl⟩, _, _, rfl, elseFlow, elseOps, s₅, helse, _, _, ⟨rfl, rfl⟩, _, _, rfl,
      ⟨rfl, rfl⟩, rfl⟩ := h
    have condition := lowerExpr_derives_one hcond
    have thenArm := lowerBlock_derives thenBlock hthen
    have elseArm := lowerBlock_derives elseBlock helse
    cases hjoin : thenFlow.join elseFlow with
    | returns =>
      cases thenFlow <;> cases elseFlow <;> simp only [Flow.join, reduceCtorEq] at hjoin
      exact fun rest => .branchReturns condition hread thenArm elseArm
    | continues =>
      intro rest restFlow restOps s' tail
      simpa using LowersBlock.branch condition hread thenArm elseArm hjoin tail
  | loop c body =>
    simp only [lowerStatement, Lower.bind_ok, Lower.assigned_ok, Lower.restoreAssigned_ok,
      Lower.pure_ok, Prod.exists, Prod.mk.injEq] at h
    obtain ⟨_, _, ⟨rfl, rfl⟩, r, condOps, s₂, hcond, _, s₃, hread, bodyFlow, bodyOps, s₄, hbody,
      _, _, rfl, ⟨rfl, rfl⟩, rfl⟩ := h
    exact fun rest restFlow restOps s' tail =>
      .loop (lowerExpr_derives_one hcond) hread (lowerBlock_derives body hbody) tail

/-- Lowering a block gives a derivation for it. -/
theorem lowerBlock_derives {s s' : Session} {flow : Flow} {ops : List Op}
    (block : List Statement) (h : scope.lowerBlock block s = .ok ((flow, ops), s')) :
    LowersBlock scope s block flow ops s' := by
  cases block with
  | nil =>
    simp only [lowerBlock, Lower.pure_ok, Prod.mk.injEq] at h
    obtain ⟨⟨rfl, rfl⟩, rfl⟩ := h
    exact .nil s
  | cons statement rest =>
    simp only [lowerBlock, Lower.bind_ok, Prod.exists] at h
    obtain ⟨firstFlow, firstOps, s₁, hfirst, h⟩ := h
    have first := lowerStatement_derives statement hfirst
    cases firstFlow with
    | returns =>
      simp only [Lower.pure_ok, Prod.mk.injEq] at h
      obtain ⟨⟨rfl, rfl⟩, rfl⟩ := h
      exact first rest
    | continues =>
      simp only [Lower.bind_ok, Lower.pure_ok, Prod.exists, Prod.mk.injEq] at h
      obtain ⟨restFlow, restOps, _, hrest, ⟨rfl, rfl⟩, rfl⟩ := h
      exact first rest restFlow restOps _ (lowerBlock_derives rest hrest)

end

end Scope

/-- The parameters, declared in order with a register reserved for each. -/
inductive LowersParams : Session → List Parameter → Session → Prop where
  | nil (s : Session) : LowersParams s [] s
  | cons {s s₁ s' : Session} {param : Parameter} {rest : List Parameter}
      (declares : Lower.declareParam param.name param.ty s = .ok ((), s₁))
      (tail : LowersParams (s₁.reserved param.ty) rest s') :
      LowersParams s (param :: rest) s'

/-- A function: its parameters, then its body. -/
inductive LowersFunction (shared : Shared) (function : SourceFunction) :
    FunctionLowering → Prop where
  | intro {symbol : Symbol} {s s' : Session} {flow : Flow} {ops : List Op}
      (named : shared.registry.resolve function.id = .ok symbol)
      (params : LowersParams function.session function.params s)
      (body : LowersBlock { shared, function } s function.body flow ops s')
      (returns : function.returnType.isSome → flow = .returns) :
      LowersFunction shared function
        { function :=
            { name := function.name
              symbol
              params := function.params
              returnType := function.returnType
              isExternal := false
              registers := s'.registers.rows
              locals := s'.locals.slots
              strings := s'.strings
              ops }
          aliases := s'.aliases
          diagnostics := s'.diagnostics }

namespace Scope

theorem lowerParams_derives {params : List Parameter} {s s' : Session}
    (h : lowerParams params s = .ok ((), s')) : LowersParams s params s' := by
  induction params generalizing s with
  | nil =>
    simp only [lowerParams, Lower.pure_ok] at h
    obtain ⟨_, rfl⟩ := h
    exact .nil s
  | cons param rest ih =>
    simp only [lowerParams, Lower.bind_ok, Lower.reserve_ok] at h
    obtain ⟨_, s₁, hdeclare, _, _, ⟨rfl, rfl⟩, htail⟩ := h
    exact .cons hdeclare (ih htail)

end Scope

namespace Shared

/-- Lowering a function gives a derivation for it. -/
theorem lowerFunction_derives {shared : Shared} {function : SourceFunction}
    {result : FunctionLowering} (h : shared.lowerFunction function = .ok result) :
    LowersFunction shared function result := by
  unfold lowerFunction at h
  cases hname : shared.registry.resolve function.id with
  | error cause => simp [hname] at h
  | ok symbol =>
    simp only [hname] at h
    cases hbody : Scope.lowerBody { shared, function } function.session with
    | error abort =>
      rw [hbody] at h
      cases h
    | ok outcome =>
      obtain ⟨ops, s'⟩ := outcome
      rw [hbody] at h
      cases h
      simp only [Scope.lowerBody, Lower.bind_ok, Prod.exists] at hbody
      obtain ⟨_, s, hparams, flow, _, _, hblock, hend⟩ := hbody
      split at hend
      · simp at hend
      · rename_i hreturns
        simp only [Lower.pure_ok] at hend
        obtain ⟨rfl, rfl⟩ := hend
        refine .intro hname (Scope.lowerParams_derives hparams)
          (Scope.lowerBlock_derives _ hblock) ?_
        intro hsome
        simpa [hsome] using hreturns

end Shared

end ScalarC
