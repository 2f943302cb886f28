import ScalarC.Proofs.Lowering.Steps
import ScalarC.Proofs.Scalar.Wrap

/-!
# Derivations of lowered code

What lowering produces, as derivations over lists: expressions that are evaluated
one after the other, and blocks of statements. Each rule names the sessions before
and after its steps. A successful run of the lowering functions has a derivation,
so facts about lowered code follow by induction on derivations.
-/

namespace ScalarC

/-- The type of an operation's result: a byte for comparisons, the type of the left
operand otherwise. -/
def Session.resultType? (s : Session) (op : Operator) (left : Register) : Option Scalar :=
  if op.isComparison then some .u8 else s.registers.typeOf? left

/-- Copies of evaluated arguments into fresh registers of the parameter types. -/
inductive BindsArgs :
    Session → List Register → List Scalar → List Register → List Op → Session → Prop where
  | nil (s : Session) : BindsArgs s [] [] [] [] s
  | cons {s s₁ s₂ s' : Session} {src : Register} {ty : Scalar} {sources bound : List Register}
      {types : List Scalar} {copies : List Op}
      (readSource : Lower.markRead src s = .ok ((), s₁))
      (readCopy : Lower.markRead s₁.next (s₁.defined ty) = .ok ((), s₂))
      (tail : BindsArgs s₂ sources types bound copies s') :
      BindsArgs s (src :: sources) (ty :: types) (s₁.next :: bound)
        (.copy s₁.next src :: copies) s'

/-- Expressions lowered from left to right, each into a register of its own. -/
inductive LowersExprs (scope : Scope) :
    Session → List Expr → List Register → List Op → Session → Prop where
  | nil (s : Session) : LowersExprs scope s [] [] [] s
  | literal {s s₁ s' : Session} {lit : Literal} {n : Int} {rest : List Expr}
      {registers : List Register} {ops : List Op}
      (value : scope.literalValue lit.value.toInt lit.ty s = .ok (n, s₁))
      (tail : LowersExprs scope (s₁.defined lit.ty) rest registers ops s') :
      LowersExprs scope s (.literal lit :: rest) (s₁.next :: registers)
        (.loadConst s₁.next n :: ops) s'
  | constant {s s₁ s' : Session} {name : String} {c : Constant} {n : Int} {rest : List Expr}
      {registers : List Register} {ops : List Op}
      (found : scope.shared.constant? name = some c)
      (value : scope.literalValue c.value.toInt c.ty s = .ok (n, s₁))
      (tail : LowersExprs scope (s₁.defined c.ty) rest registers ops s') :
      LowersExprs scope s (.constant name :: rest) (s₁.next :: registers)
        (.loadConst s₁.next n :: ops) s'
  | var {s s₁ s' : Session} {name : String} {ty : Scalar} {rest : List Expr}
      {registers : List Register} {ops : List Op}
      (read : Lower.readLocal name s = .ok (ty, s₁))
      (tail : LowersExprs scope (s₁.defined ty) rest registers ops s') :
      LowersExprs scope s (.var name :: rest) (s₁.next :: registers)
        (.loadLocal s₁.next name :: ops) s'
  | binary {s s₁ s₂ s₃ s' : Session} {op : Operator} {lhs rhs : Expr} {left right : Register}
      {ty : Scalar} {rest : List Expr} {registers : List Register} {operandOps ops : List Op}
      (operands : LowersExprs scope s [lhs, rhs] [left, right] operandOps s₁)
      (readLeft : Lower.markRead left s₁ = .ok ((), s₂))
      (readRight : Lower.markRead right s₂ = .ok ((), s₃))
      (result : s₃.resultType? op left = some ty)
      (tail : LowersExprs scope (s₃.defined ty) rest registers ops s') :
      LowersExprs scope s (.binary op lhs rhs :: rest) (s₃.next :: registers)
        (operandOps ++ .binary s₃.next op left right :: ops) s'
  | cast {s s₁ s₂ s' : Session} {value : Expr} {ty : Scalar} {src : Register} {rest : List Expr}
      {registers : List Register} {operandOps ops : List Op}
      (operand : LowersExprs scope s [value] [src] operandOps s₁)
      (readSource : Lower.markRead src s₁ = .ok ((), s₂))
      (tail : LowersExprs scope (s₂.defined ty) rest registers ops s') :
      LowersExprs scope s (.cast value ty :: rest) (s₂.next :: registers)
        (operandOps ++ .cast s₂.next src :: ops) s'
  | call {s s₁ s₂ s₃ s' : Session} {callee : Callee} {args rest : List Expr} {symbol : Symbol}
      {signature : Signature} {sources bound registers : List Register} {ty : Scalar}
      {argOps copies ops : List Op}
      (target : scope.lowerCallee callee s = .ok ((symbol, signature), s₁))
      (arity : args.length = signature.params.length)
      (arguments : LowersExprs scope s₁ args sources argOps s₂)
      (binding : BindsArgs s₂ sources signature.params bound copies s₃)
      (returns : signature.returnType = some ty)
      (tail : LowersExprs scope (s₃.defined ty) rest registers ops s') :
      LowersExprs scope s (.call callee args :: rest) (s₃.next :: registers)
        (argOps ++ copies ++ .call (some s₃.next) symbol bound :: ops) s'

namespace LowersExprs

variable {scope : Scope} {s s₁ s' : Session}

theorem length_eq {es : List Expr} {registers : List Register} {ops : List Op}
    (h : LowersExprs scope s es registers ops s') : registers.length = es.length := by
  induction h <;> simp_all

end LowersExprs

/-- A call that is looked up by a symbol is written with that symbol. -/
theorem Registry.resolveSymbol_symbol {registry : Registry} {spelling : String}
    {resolved : ResolvedCall} (h : registry.resolveSymbol spelling = .ok resolved) :
    resolved.symbol = spelling := by
  unfold resolveSymbol at h
  split at h
  · cases h
    rfl
  · split at h
    · split at h <;> simp at h
    · split at h
      · split at h
        · cases h
          rfl
        · simp at h
      · simp at h

namespace Scope

variable {scope : Scope}

/-- The value of a literal is wrapped to its type; at most a warning is added. -/
theorem literalValue_ok {s s' : Session} {value n : Int} {ty : Scalar}
    (h : scope.literalValue value ty s = .ok (n, s')) :
    n = ty.wrap value ∧ ∃ diagnostics, s' = { s with diagnostics } := by
  unfold literalValue at h
  split at h
  · rename_i hfits
    simp only [Lower.pure_ok] at h
    obtain ⟨rfl, rfl⟩ := h
    exact ⟨(Scalar.wrap_of_fits hfits).symm, _, rfl⟩
  · cases hpolicy : scope.shared.settings.overflow with
    | reject => simp [hpolicy] at h
    | warn =>
      simp only [hpolicy, Lower.bind_ok, Lower.warn, Lower.modify_ok, Lower.pure_ok] at h
      obtain ⟨_, _, rfl, rfl, rfl⟩ := h
      exact ⟨rfl, _, rfl⟩

/-- The target of a call has a signature. It is called by the symbol of the signature, by
a symbol that it owns, or by another spelling, which is then recorded as an alias. -/
theorem lowerCallee_ok {s s' : Session} {callee : Callee} {symbol : Symbol}
    {signature : Signature}
    (h : scope.lowerCallee callee s = .ok ((symbol, signature), s')) :
    ∃ id, scope.shared.signature? id = some signature
      ∧ ((symbol = signature.symbol
            ∨ scope.shared.registry.resolveSymbol symbol = .ok ⟨symbol, id, false⟩) ∧ s' = s
        ∨ scope.shared.registry.resolveSymbol symbol = .ok ⟨symbol, id, true⟩
          ∧ s' = { s with aliases := s.aliases.insert symbol id }) := by
  cases callee with
  | function id =>
    cases hsignature : scope.shared.signature? id with
    | none => simp [lowerCallee, hsignature] at h
    | some found =>
      simp only [lowerCallee, hsignature, Lower.pure_ok, Prod.mk.injEq] at h
      obtain ⟨⟨rfl, rfl⟩, rfl⟩ := h
      exact ⟨id, hsignature, .inl ⟨.inl rfl, rfl⟩⟩
  | symbol spelling =>
    simp only [lowerCallee, Lower.bind_ok, Lower.lift_ok] at h
    obtain ⟨⟨called, target, isAlias⟩, _, ⟨hresolve, rfl⟩, h⟩ := h
    obtain rfl : called = spelling := Registry.resolveSymbol_symbol hresolve
    cases hsignature : scope.shared.signature? target with
    | none => simp [hsignature] at h
    | some found =>
      simp only [hsignature] at h
      cases isAlias with
      | true =>
        simp only [if_true, Lower.bind_ok, Lower.addAlias, Lower.modify_ok, Lower.pure_ok,
          Prod.mk.injEq] at h
        obtain ⟨_, _, rfl, ⟨rfl, rfl⟩, rfl⟩ := h
        exact ⟨target, hsignature, .inr ⟨hresolve, rfl⟩⟩
      | false =>
        simp only [Bool.false_eq_true, if_false, Lower.pure_ok, Prod.mk.injEq] at h
        obtain ⟨⟨rfl, rfl⟩, rfl⟩ := h
        exact ⟨target, hsignature, .inl ⟨.inr hresolve, rfl⟩⟩

theorem bindArgs_derives {s s' : Session} {sources : List Register} {types : List Scalar}
    {bound : List Register} {copies : List Op}
    (hlength : sources.length = types.length)
    (h : bindArgs sources types s = .ok ((bound, copies), s')) :
    BindsArgs s sources types bound copies s' := by
  induction sources generalizing types s bound copies with
  | nil =>
    cases types with
    | nil =>
      simp only [bindArgs, Lower.pure_ok, Prod.mk.injEq] at h
      obtain ⟨⟨rfl, rfl⟩, rfl⟩ := h
      exact .nil s
    | cons ty types => simp at hlength
  | cons src sources ih =>
    cases types with
    | nil => simp at hlength
    | cons ty types =>
      simp only [bindArgs, Lower.bind_ok, Lower.define_ok, Lower.pure_ok, Prod.mk.injEq] at h
      obtain ⟨_, s₁, hsource, _, _, ⟨rfl, rfl⟩, _, s₂, hcopy, ⟨bound, copies⟩, _, htail,
        ⟨rfl, rfl⟩, rfl⟩ := h
      exact .cons hsource hcopy (ih (by simpa using hlength) htail)

theorem lowerLiteral_ok {s s' : Session} {value : Int64} {ty : Scalar} {r : Register}
    {ops : List Op} :
    scope.lowerLiteral value ty s = .ok ((r, ops), s') ↔
      ∃ n s₁, scope.literalValue value.toInt ty s = .ok (n, s₁) ∧ s₁.next = r
        ∧ [.loadConst s₁.next n] = ops ∧ s₁.defined ty = s' := by
  simp only [lowerLiteral, Lower.bind_ok, Lower.define_ok, Lower.pure_ok, Prod.mk.injEq]
  constructor
  · rintro ⟨n, s₁, hvalue, _, _, ⟨rfl, rfl⟩, ⟨rfl, rfl⟩, rfl⟩
    exact ⟨n, s₁, hvalue, rfl, rfl, rfl⟩
  · rintro ⟨n, s₁, hvalue, rfl, rfl, rfl⟩
    exact ⟨n, s₁, hvalue, _, _, ⟨rfl, rfl⟩, ⟨rfl, rfl⟩, rfl⟩

/-- The last steps of a binary operation: its type is found and its register handed
out. -/
theorem binaryResult_ok {s s' : Session} {op : Operator} {left right r : Register}
    {operandOps ops : List Op}
    (h : (do let ty ← if op.isComparison then pure .u8 else Lower.typeOf left
             let dest ← Lower.define ty
             return (dest, operandOps ++ [.binary dest op left right]) :
            Lower (Register × List Op)) s = .ok ((r, ops), s')) :
    ∃ ty, s.resultType? op left = some ty ∧ s.next = r
      ∧ operandOps ++ [.binary s.next op left right] = ops ∧ s.defined ty = s' := by
  cases hop : op.isComparison with
  | true =>
    simp only [hop, if_true, Lower.bind_ok, Lower.pure_ok, Lower.define_ok, Prod.mk.injEq] at h
    obtain ⟨_, _, ⟨rfl, rfl⟩, _, _, ⟨rfl, rfl⟩, ⟨rfl, rfl⟩, rfl⟩ := h
    exact ⟨.u8, by simp [Session.resultType?, hop], rfl, rfl, rfl⟩
  | false =>
    simp only [hop, Bool.false_eq_true, if_false, Lower.bind_ok, Lower.pure_ok,
      Lower.typeOf_ok, Lower.define_ok, Prod.mk.injEq] at h
    obtain ⟨ty, _, ⟨hty, rfl⟩, _, _, ⟨rfl, rfl⟩, ⟨rfl, rfl⟩, rfl⟩ := h
    exact ⟨ty, by simp [Session.resultType?, hop, hty], rfl, rfl, rfl⟩

/-- A call succeeds step by step: its target, its arity, its arguments, their copies
and its result. -/
theorem lowerCall_ok {s s' : Session} {callee : Callee} {arity : Nat}
    {lowerArgs : Lower (List Register × List Op)} {keep : Bool} {dest : Option Register}
    {ops : List Op}
    (h : scope.lowerCall callee arity lowerArgs keep s = .ok ((dest, ops), s')) :
    ∃ symbol signature s₁ sources argOps s₂ bound copies s₃,
      scope.lowerCallee callee s = .ok ((symbol, signature), s₁)
      ∧ arity = signature.params.length
      ∧ lowerArgs s₁ = .ok ((sources, argOps), s₂)
      ∧ bindArgs sources signature.params s₂ = .ok ((bound, copies), s₃)
      ∧ resultRegister signature.returnType keep s₃ = .ok (dest, s')
      ∧ argOps ++ copies ++ [.call dest symbol bound] = ops := by
  simp only [lowerCall, Lower.bind_ok, Prod.exists] at h
  obtain ⟨symbol, signature, s₁, htarget, h⟩ := h
  split at h
  · simp at h
  · rename_i harity
    simp only [Lower.bind_ok, Lower.pure_ok, Prod.exists, Prod.mk.injEq] at h
    obtain ⟨sources, argOps, s₂, hargs, bound, copies, s₃, hbind, _, _, hdest, ⟨rfl, rfl⟩, rfl⟩ := h
    exact ⟨symbol, signature, s₁, sources, argOps, s₂, bound, copies, s₃, htarget,
      by simpa using harity, hargs, hbind, hdest, rfl⟩

/-- A result that is kept lands in the next register; there has to be one. -/
theorem resultRegister_kept {s s' : Session} {returnType : Option Scalar} {r : Register} :
    resultRegister returnType true s = .ok (some r, s') ↔
      ∃ ty, returnType = some ty ∧ s.next = r ∧ s.defined ty = s' := by
  cases returnType with
  | none => simp [resultRegister]
  | some ty =>
    simp only [resultRegister, if_true, Lower.bind_ok, Lower.define_ok, Lower.pure_ok,
      Option.some.injEq]
    constructor
    · rintro ⟨_, _, ⟨rfl, rfl⟩, rfl, rfl⟩
      exact ⟨ty, rfl, rfl, rfl⟩
    · rintro ⟨_, rfl, rfl, rfl⟩
      exact ⟨_, _, ⟨rfl, rfl⟩, rfl, rfl⟩

mutual

/-- Lowering an expression, followed by a derivation for the expressions behind it. -/
theorem lowerExpr_derives {s s₁ s' : Session} {rest : List Expr} {r : Register}
    {registers : List Register} {ops restOps : List Op} (e : Expr)
    (h : scope.lowerExpr e s = .ok ((r, ops), s₁))
    (tail : LowersExprs scope s₁ rest registers restOps s') :
    LowersExprs scope s (e :: rest) (r :: registers) (ops ++ restOps) s' := by
  cases e with
  | literal lit =>
    obtain ⟨n, s₂, hvalue, rfl, rfl, rfl⟩ := lowerLiteral_ok.1 h
    exact .literal hvalue tail
  | var name =>
    simp only [lowerExpr, Lower.bind_ok, Lower.define_ok, Lower.pure_ok, Prod.mk.injEq] at h
    obtain ⟨ty, s₂, hread, _, _, ⟨rfl, rfl⟩, ⟨rfl, rfl⟩, rfl⟩ := h
    exact .var hread tail
  | constant name =>
    simp only [lowerExpr] at h
    cases hc : scope.shared.constant? name with
    | none => simp [hc] at h
    | some c =>
      rw [hc] at h
      obtain ⟨n, s₂, hvalue, rfl, rfl, rfl⟩ := lowerLiteral_ok.1 h
      exact .constant hc hvalue tail
  | binary op lhs rhs =>
    simp only [lowerExpr] at h
    rw [Lower.bind_ok] at h
    obtain ⟨⟨left, leftOps⟩, s₂, hleft, h⟩ := h
    rw [Lower.bind_ok] at h
    obtain ⟨⟨right, rightOps⟩, s₃, hright, h⟩ := h
    rw [Lower.bind_ok] at h
    obtain ⟨_, s₄, readLeft, h⟩ := h
    rw [Lower.bind_ok] at h
    obtain ⟨_, s₅, readRight, h⟩ := h
    obtain ⟨ty, hty, rfl, rfl, rfl⟩ := binaryResult_ok h
    have operands := lowerExpr_derives lhs hleft (lowerExpr_derives rhs hright (.nil s₃))
    simpa using LowersExprs.binary operands readLeft readRight hty tail
  | cast value ty =>
    simp only [lowerExpr, Lower.bind_ok, Lower.define_ok, Lower.pure_ok, Prod.exists,
      Prod.mk.injEq] at h
    obtain ⟨src, srcOps, s₂, hvalue, _, s₃, readSource, _, _, ⟨rfl, rfl⟩, ⟨rfl, rfl⟩, rfl⟩ := h
    have operand := lowerExpr_derives value hvalue (.nil s₂)
    simpa using LowersExprs.cast operand readSource tail
  | call callee args =>
    simp only [lowerExpr, Lower.bind_ok, Prod.exists] at h
    obtain ⟨dest, callOps, s₂, hcall, h⟩ := h
    cases dest with
    | none => simp at h
    | some dest =>
      simp only [Lower.pure_ok, Prod.mk.injEq] at h
      obtain ⟨⟨rfl, rfl⟩, rfl⟩ := h
      obtain ⟨symbol, signature, s₃, sources, argOps, s₄, bound, copies, s₅, htarget, harity,
        hargs, hbind, hdest, rfl⟩ := lowerCall_ok hcall
      obtain ⟨ty, hret, rfl, rfl⟩ := resultRegister_kept.1 hdest
      have arguments := lowerArgs_derives args hargs
      have binding := bindArgs_derives (arguments.length_eq.trans harity) hbind
      simpa using LowersExprs.call htarget harity arguments binding hret tail

/-- Lowering arguments gives a derivation for them. -/
theorem lowerArgs_derives {s s' : Session} {registers : List Register} {ops : List Op}
    (es : List Expr)
    (h : scope.lowerArgs es s = .ok ((registers, ops), s')) :
    LowersExprs scope s es registers ops s' := by
  cases es with
  | nil =>
    simp only [lowerArgs, Lower.pure_ok, Prod.mk.injEq] at h
    obtain ⟨⟨rfl, rfl⟩, rfl⟩ := h
    exact .nil s
  | cons e rest =>
    simp only [lowerArgs, Lower.bind_ok, Lower.pure_ok, Prod.exists, Prod.mk.injEq] at h
    obtain ⟨r, ops₁, s₁, he, rs, ops₂, s₂, hrest, ⟨rfl, rfl⟩, rfl⟩ := h
    exact lowerExpr_derives e he (lowerArgs_derives rest hrest)

end

/-- An expression by itself. -/
theorem lowerExpr_derives_one {s s' : Session} {e : Expr} {r : Register} {ops : List Op}
    (h : scope.lowerExpr e s = .ok ((r, ops), s')) : LowersExprs scope s [e] [r] ops s' := by
  simpa using lowerExpr_derives e h (.nil s')

end Scope

end ScalarC
