import Mathlib.Data.List.Forall2
import ScalarC.Proofs.Assignment
import ScalarC.Proofs.Run.Code
import ScalarC.Proofs.Scalar.Wrap

/-!
# Simulation of expressions

The operations of lowered expressions leave the values of the expressions in their
registers. They write registers that were not handed out before and no local, so
what stands in earlier registers is kept while later operands are evaluated.
-/

namespace ScalarC

/-- The register holds the value, under the type of the value. -/
def CodeActivation.Holds (code : CodeActivation) (frame : Frame) (r : Register)
    (value : Value) : Prop :=
  code.function.registerType? r = some value.ty ∧ frame.registers r = value.raw

/-- The activation of a source function and one of its code have the same meaning of
operators, conversions and calls, and the tables of the code, as the session `final`
left them, agree with the source. -/
structure Activation.Matches (act : Activation) (code : CodeActivation) (scope : Scope)
    (final : Session) : Prop where
  meaning : code.meaning = act.meaning
  function : act.function = scope.function
  returnType : code.function.returnType = act.function.returnType
  constants : ∀ {name c}, scope.shared.constant? name = some c →
    act.unit.constant? name = some c
  calls : ∀ {callee s symbol signature s'},
    scope.lowerCallee callee s = .ok ((symbol, signature), s') →
      ∃ target, act.unit.callee? act.settings callee = some target
        ∧ signature.params = target.paramTypes ∧ signature.returnType = target.returnType
        ∧ code.invoke symbol = act.invoke target
  registers : ∀ r, code.function.registerType? r = final.registers.typeOf? r
  localsCode : ∀ name, code.function.localType? name = final.locals.typeOf? name
  localsSource : ∀ name, act.function.localType? name = final.locals.typeOf? name
  strings : code.function.strings = final.strings

/-- The frame agrees with the store on every local that the store holds. -/
def Store.Agrees (store : Store) (frame : Frame) : Prop :=
  ∀ name raw, store name = some raw → frame.locals name = raw

/-- The frame `frame'` behind operations that evaluate expressions: the locals and the
first `size` registers are those of `frame`, and the registers hold the values. -/
structure CodeActivation.Evaluated (code : CodeActivation) (size : Nat) (frame : Frame)
    (registers : List Register) (frame' : Frame) (values : List Value) : Prop where
  locals : frame'.locals = frame.locals
  kept : ∀ r : Register, r.number ≤ size → frame'.registers r = frame.registers r
  values : List.Forall₂ (code.Holds frame') registers values

namespace CodeActivation

variable {code : CodeActivation} {frame frame' : Frame} {r : Register} {value : Value}

theorem operand_of_holds (h : code.Holds frame r value) :
    code.operand frame r = pure value := by
  obtain ⟨hty, hraw⟩ := h
  simp [operand, hty, hraw]

theorem Holds.of_eq (h : code.Holds frame r value)
    (heq : frame'.registers r = frame.registers r) : code.Holds frame' r value :=
  ⟨h.1, heq.trans h.2⟩

theorem forall₂_holds_of_eq {registers : List Register} {values : List Value}
    (h : List.Forall₂ (code.Holds frame) registers values)
    (heq : ∀ r ∈ registers, frame'.registers r = frame.registers r) :
    List.Forall₂ (code.Holds frame') registers values := by
  induction h with
  | nil => exact .nil
  | cons hfirst _ ih =>
    obtain ⟨hr, hrest⟩ := List.forall_mem_cons.1 heq
    exact .cons (hfirst.of_eq hr) (ih hrest)

/-- A register that is written beyond `size` keeps the first `size` registers. -/
theorem kept_setRegister {size : Nat} {raw : Int} (h : size < r.number) (r' : Register)
    (hr : r'.number ≤ size) : (frame.setRegister r raw).registers r' = frame.registers r' := by
  refine Frame.registers_setRegister_of_ne ?_
  rintro rfl
  omega

namespace Evaluated

variable {size size₁ : Nat} {frame₁ : Frame} {registers : List Register} {values : List Value}

theorem nil (frame : Frame) : code.Evaluated size frame [] frame [] :=
  ⟨rfl, fun _ _ => rfl, .nil⟩

/-- An expression was evaluated before the others: its register is kept. -/
theorem cons (locals : frame₁.locals = frame.locals)
    (kept : ∀ r : Register, r.number ≤ size → frame₁.registers r = frame.registers r)
    (first : code.Holds frame₁ r value) (hr : r.number ≤ size₁) (hle : size ≤ size₁)
    (tail : code.Evaluated size₁ frame₁ registers frame' values) :
    code.Evaluated size frame (r :: registers) frame' (value :: values) where
  locals := tail.locals.trans locals
  kept r' hr' := (tail.kept r' (Nat.le_trans hr' hle)).trans (kept r' hr')
  values := .cons (first.of_eq (tail.kept r hr)) tail.values

end Evaluated

end CodeActivation

namespace Activation.Matches

variable {act : Activation} {code : CodeActivation} {scope : Scope} {final s : Session}

/-- A type found in the middle of lowering is the one in the code's table. -/
theorem registerType?_eq (sim : act.Matches code scope final) (ext : s.Extends final)
    {r : Register} {ty : Scalar} (h : s.registers.typeOf? r = some ty) :
    code.function.registerType? r = some ty := by
  rw [sim.registers]
  exact RegisterTable.typeOf?_of_prefix ext.types h

/-- A number written into a register that was just handed out. -/
theorem holds_next (sim : act.Matches code scope final) {ty : Scalar}
    (ext : (s.defined ty).Extends final) (frame : Frame) (raw : Int) :
    code.Holds (frame.setRegister s.next raw) s.next ⟨ty, raw⟩ :=
  ⟨sim.registerType?_eq ext (s.typeOf?_defined ty), by simp⟩

end Activation.Matches

variable {act : Activation} {code : CodeActivation} {scope : Scope} {final s s' : Session}

/-- Copying arguments converts them to the parameter types. -/
theorem BindsArgs.simulates (sim : act.Matches code scope final) {sources bound : List Register}
    {types : List Scalar} {copies : List Op} (h : BindsArgs s sources types bound copies s')
    (ext : s'.Extends final) (fuel : Nat) {frame : Frame} {values : List Value}
    (hvalues : List.Forall₂ (code.Holds frame) sources values)
    (hbound : ∀ r ∈ sources, r.number ≤ s.registers.size) :
    Run.Rel (Run.Passes fun frame' raws => frame'.locals = frame.locals
        ∧ (∀ r : Register, r.number ≤ s.registers.size →
            frame'.registers r = frame.registers r)
        ∧ bound.map frame'.registers = raws)
      (code.execOps fuel copies frame)
      (Run.ofOption (act.meaning.convertAll values types)) := by
  induction h generalizing frame values with
  | nil s =>
    cases hvalues
    exact .pure ⟨rfl, rfl, fun _ _ => rfl, rfl⟩
  | @cons s s₁ s₂ s' src ty sources bound types copies readSource readCopy tail ih =>
    cases hvalues with
    | @cons _ value _ values hfirst hvalues =>
    have hsize₁ := Lower.size_markRead readSource
    have hsize₂ := Lower.size_markRead readCopy
    rw [Session.size_defined] at hsize₂
    have hnext : s₁.next.number = s.registers.size + 1 := by simp [hsize₁]
    have hty : code.function.registerType? s₁.next = some ty :=
      sim.registerType?_eq ((Lower.markRead_evaluates readCopy).extends.trans
        (tail.evaluates.extends.trans ext)) (s₁.typeOf?_defined ty)
    rw [code.execOps_simple fuel rfl, Meaning.convertAll, Run.ofOption_bind]
    simp only [CodeActivation.execSimple, CodeActivation.convert,
      CodeActivation.operand_of_holds hfirst, hty, sim.meaning, Run.ofOption_some, pure_bind,
      bind_assoc, Run.ofOption_bind]
    refine .bind_same fun raw => ?_
    have hkept : ∀ r : Register, r.number ≤ s.registers.size →
        (frame.setRegister s₁.next raw).registers r = frame.registers r :=
      fun r => CodeActivation.kept_setRegister (by omega) r
    have hrest : ∀ r ∈ sources, r.number ≤ s.registers.size :=
      fun r hr => hbound r (List.mem_cons_of_mem _ hr)
    have hsources := CodeActivation.forall₂_holds_of_eq hvalues
      fun r hr => hkept r (hrest r hr)
    refine (ih ext hsources fun r hr => ?_).map_right ?_
    · have := hrest r hr
      omega
    · rintro ⟨_, frame'⟩ raws ⟨rfl, hlocals, hregisters, rfl⟩
      refine ⟨rfl, hlocals, fun r hr => ?_, ?_⟩
      · rw [hregisters r (by omega), hkept r hr]
      · rw [List.map_cons, hregisters s₁.next (by omega)]
        simp

theorem Store.Agrees.of_locals {store : Store} {frame frame' : Frame} (h : store.Agrees frame)
    (heq : frame'.locals = frame.locals) : store.Agrees frame' :=
  fun name raw hraw => by rw [heq, h name raw hraw]

/-- Arguments that were evaluated are converted to the parameter types. -/
theorem BindsArgs.simulates_args (sim : act.Matches code scope final)
    {sources bound : List Register} {types : List Scalar} {argOps copies : List Op}
    (h : BindsArgs s sources types bound copies s') (ext : s'.Extends final) {fuel size : Nat}
    {store : Store} {args : List Expr} {frame : Frame}
    (arguments : Run.Rel (Run.Passes (code.Evaluated size frame sources))
      (code.execOps fuel argOps frame) (act.evalArgs store args))
    (hbound : ∀ r ∈ sources, r.number ≤ s.registers.size) (hsize : size ≤ s.registers.size) :
    Run.Rel (Run.Passes fun frame' raws => frame'.locals = frame.locals
        ∧ (∀ r : Register, r.number ≤ size → frame'.registers r = frame.registers r)
        ∧ bound.map frame'.registers = raws)
      (code.execOps fuel (argOps ++ copies) frame)
      (act.evalArgs store args >>= fun values =>
        Run.ofOption (act.meaning.convertAll values types)) := by
  rw [code.execOps_append]
  refine arguments.andThen_passes ?_
  rintro φ values ⟨hlocals, hkept, hvalues⟩
  refine (h.simulates sim ext fuel hvalues hbound).mono ?_
  rintro ⟨_, φ'⟩ raws ⟨rfl, hlocals', hkept', hraws⟩
  exact ⟨rfl, hlocals'.trans hlocals,
    fun r hr => (hkept' r (Nat.le_trans hr hsize)).trans (hkept r hr), hraws⟩

/-- One expression. -/
theorem Activation.evaluated_one {store : Store} {e : Expr} {r : Register} {size : Nat}
    {frame : Frame} {x : Run (Outcome × Frame)}
    (h : Run.Rel (Run.Passes (code.Evaluated size frame [r])) x (act.evalArgs store [e])) :
    Run.Rel (Run.Passes fun frame' value => code.Evaluated size frame [r] frame' [value]) x
      (act.evalExpr store e) := by
  have heq : act.evalArgs store [e] = act.evalExpr store e >>= fun value => pure [value] := by
    simp [evalArgs]
  rw [heq] at h
  exact h.of_map_right

/-- Goes on behind two expressions. -/
theorem Activation.andThen_two {δ : Type} {S : Outcome × Frame → δ → Prop} {store : Store}
    {e₁ e₂ : Expr} {r₁ r₂ : Register} {size : Nat} {frame : Frame} {x : Run (Outcome × Frame)}
    {f : Frame → Run (Outcome × Frame)} {g : Value → Value → Run δ}
    (h : Run.Rel (Run.Passes (code.Evaluated size frame [r₁, r₂])) x
      (act.evalArgs store [e₁, e₂]))
    (hnext : ∀ frame' v₁ v₂, code.Evaluated size frame [r₁, r₂] frame' [v₁, v₂] →
      Run.Rel S (f frame') (g v₁ v₂)) :
    Run.Rel S (Run.andThen x f)
      (act.evalExpr store e₁ >>= fun v₁ => act.evalExpr store e₂ >>= fun v₂ => g v₁ v₂) := by
  have heq : (act.evalExpr store e₁ >>= fun v₁ => act.evalExpr store e₂ >>= fun v₂ => g v₁ v₂)
      = act.evalArgs store [e₁, e₂] >>= fun values => Run.ofOption values[0]? >>= fun v₁ =>
        Run.ofOption values[1]? >>= fun v₂ => g v₁ v₂ := by
    simp [evalArgs]
  rw [heq]
  refine h.andThen_passes fun frame' values hvalues => ?_
  cases hvalues.values with
  | cons hfirst hrest =>
    cases hrest with
    | cons hsecond hrest =>
      cases hrest
      simpa using hnext frame' _ _ hvalues

theorem Activation.Matches.localType?_eq (sim : act.Matches code scope final)
    (ext : s.Extends final) {name : String} {ty : Scalar}
    (h : s.locals.typeOf? name = some ty) : act.function.localType? name = some ty := by
  rw [sim.localsSource]
  exact LocalTable.typeOf?_of_prefix ext.declared h

/-- The first of several expressions left its value in a register that was handed out
for it; the others follow. -/
theorem Activation.Matches.evaluated_next (sim : act.Matches code scope final)
    {s₁ : Session} {ty : Scalar} {rest : List Expr} {registers : List Register}
    {ops : List Op} {fuel : Nat} {store : Store} {frame φ : Frame} {raw : Int}
    (hagrees : store.Agrees frame) (hcovers : s.locals.Covers fun name => (store name).isSome)
    (before : s.Evaluates s₁) (ext : (s₁.defined ty).Extends final)
    (locals : φ.locals = frame.locals)
    (kept : ∀ r : Register, r.number ≤ s.registers.size → φ.registers r = frame.registers r)
    (tail : ∀ {frame : Frame}, store.Agrees frame →
      ((s₁.defined ty).locals.Covers fun name => (store name).isSome) →
      Run.Rel (Run.Passes (code.Evaluated (s₁.defined ty).registers.size frame registers))
        (code.execOps fuel ops frame) (act.evalArgs store rest)) :
    Run.Rel (Run.Passes (code.Evaluated s.registers.size frame (s₁.next :: registers)))
      (code.execOps fuel ops (φ.setRegister s₁.next raw))
      (act.evalArgs store rest >>= fun values => pure (⟨ty, raw⟩ :: values)) := by
  have hsize := before.size_le
  have hlocals : (φ.setRegister s₁.next raw).locals = frame.locals := locals
  refine (tail (hagrees.of_locals hlocals)
    ((before.trans (s₁.evaluates_defined ty)).covers hcovers)).map_right ?_
  rintro ⟨_, frame'⟩ values ⟨rfl, hvalues⟩
  refine ⟨rfl, .cons hlocals (fun r hr => ?_) (sim.holds_next ext φ raw) ?_ ?_ hvalues⟩
  · rw [CodeActivation.kept_setRegister (by simp; omega) r hr, kept r hr]
  · simp
  · simp only [Session.size_defined]
    omega

/-- The operations of lowered expressions evaluate the expressions. -/
theorem LowersExprs.simulates (sim : act.Matches code scope final) {es : List Expr}
    {registers : List Register} {ops : List Op} (h : LowersExprs scope s es registers ops s')
    (ext : s'.Extends final) (fuel : Nat) {store : Store} {frame : Frame}
    (hagrees : store.Agrees frame) (hcovers : s.locals.Covers fun name => (store name).isSome) :
    Run.Rel (Run.Passes (code.Evaluated s.registers.size frame registers))
      (code.execOps fuel ops frame) (act.evalArgs store es) := by
  induction h generalizing frame with
  | nil s => exact .pure ⟨rfl, .nil frame⟩
  | literal value tail ih =>
    rw [code.execOps_simple fuel rfl]
    simp only [CodeActivation.execSimple, Activation.evalArgs, Activation.evalExpr, pure_bind,
      (Scope.literalValue_ok value).1]
    exact sim.evaluated_next hagrees hcovers (Scope.literalValue_evaluates value)
      (tail.evaluates.extends.trans ext) rfl (fun _ _ => rfl) (ih ext)
  | constant found value tail ih =>
    rw [code.execOps_simple fuel rfl]
    simp only [CodeActivation.execSimple, Activation.evalArgs, Activation.evalExpr, pure_bind,
      sim.constants found, Run.ofOption_some, (Scope.literalValue_ok value).1]
    exact sim.evaluated_next hagrees hcovers (Scope.literalValue_evaluates value)
      (tail.evaluates.extends.trans ext) rfl (fun _ _ => rfl) (ih ext)
  | @var s s₁ s' name ty rest registers ops read tail ih =>
    have before := Lower.readLocal_evaluates read
    have after := (s₁.evaluates_defined ty).extends.trans (tail.evaluates.extends.trans ext)
    obtain ⟨raw, hraw⟩ := Option.isSome_iff_exists.1 (Lower.readLocal_covers hcovers read)
    have hty := sim.localType?_eq (before.extends.trans after) (Lower.readLocal_typeOf? read)
    rw [code.execOps_simple fuel rfl]
    simp only [CodeActivation.execSimple, Activation.evalArgs, Activation.evalExpr, pure_bind,
      hty, hraw, Run.ofOption_some, hagrees name raw hraw]
    exact sim.evaluated_next hagrees hcovers before (tail.evaluates.extends.trans ext) rfl
      (fun _ _ => rfl) (ih ext)
  | @binary s s₁ s₂ s₃ s' op lhs rhs left right ty rest registers operandOps ops operands
      readLeft readRight result tail ihOperands ih =>
    have marked := (Lower.markRead_evaluates readLeft).trans (Lower.markRead_evaluates readRight)
    have hext := tail.evaluates.extends.trans ext
    have hext₃ := (s₃.evaluates_defined ty).extends.trans hext
    rw [code.execOps_append]
    simp only [Activation.evalArgs, Activation.evalExpr, bind_assoc]
    refine Activation.andThen_two (ihOperands (marked.extends.trans hext₃) hagrees hcovers) ?_
    rintro φ v₁ v₂ ⟨hlocals, hkept, hvalues⟩
    obtain ⟨hleft, hright⟩ : code.Holds φ left v₁ ∧ code.Holds φ right v₂ := by
      simpa using hvalues
    have hty : ty = if op.isComparison then .u8 else v₁.ty := by
      unfold Session.resultType? at result
      split at result
      · simp_all
      · have hresult := sim.registerType?_eq hext₃ result
        simp_all [hleft.1]
    rw [code.execOps_simple fuel rfl]
    simp only [CodeActivation.execSimple, CodeActivation.operand_of_holds hleft,
      CodeActivation.operand_of_holds hright, sim.meaning, pure_bind, bind_assoc, ← hty]
    refine .bind_same fun raw => ?_
    exact sim.evaluated_next hagrees hcovers (operands.evaluates.trans marked) hext hlocals hkept
      (ih ext)
  | @cast s s₁ s₂ s' value ty src rest registers operandOps ops operand readSource tail
      ihOperand ih =>
    have marked := Lower.markRead_evaluates readSource
    have hext := tail.evaluates.extends.trans ext
    have hext₂ := (s₂.evaluates_defined ty).extends.trans hext
    rw [code.execOps_append]
    simp only [Activation.evalArgs, Activation.evalExpr, bind_assoc]
    refine (Activation.evaluated_one
      (ihOperand (marked.extends.trans hext₂) hagrees hcovers)).andThen_passes ?_
    rintro φ v ⟨hlocals, hkept, hvalues⟩
    have hsource : code.Holds φ src v := by simpa using hvalues
    rw [code.execOps_simple fuel rfl]
    simp only [CodeActivation.execSimple, CodeActivation.convert, Run.ofOption_some,
      CodeActivation.operand_of_holds hsource, sim.meaning, pure_bind, bind_assoc,
      sim.registerType?_eq hext (s₂.typeOf?_defined ty)]
    refine .bind_same fun raw => ?_
    exact sim.evaluated_next hagrees hcovers (operand.evaluates.trans marked) hext hlocals hkept
      (ih ext)
  | @call s s₁ s₂ s₃ s' callee args rest symbol signature sources bound registers ty argOps
      copies ops target arity arguments binding returns tail ihArguments ih =>
    have found := Scope.lowerCallee_evaluates target
    have hext := tail.evaluates.extends.trans ext
    have hext₃ := (s₃.evaluates_defined ty).extends.trans hext
    obtain ⟨function, hcallee, hparams, hreturns, hinvoke⟩ := sim.calls target
    rw [returns] at hreturns
    rw [code.execOps_append]
    simp only [Activation.evalArgs, Activation.evalExpr, Activation.call, hcallee, ← hparams,
      ← hreturns, Run.ofOption_some, bind_assoc, pure_bind]
    rw [← bind_assoc]
    refine (binding.simulates_args sim hext₃ (ihArguments (binding.evaluates.extends.trans hext₃)
      hagrees (found.covers hcovers)) (fun r hr => (arguments.register_bounds r hr).2)
      arguments.evaluates.size_le).andThen_passes ?_
    rintro φ raws ⟨hlocals, hkept, rfl⟩
    rw [code.execOps_simple fuel rfl]
    simp only [CodeActivation.execSimple, CodeActivation.receive, hinvoke, pure_bind, bind_assoc]
    refine .bind_same fun result => .bind_same fun raw => ?_
    exact sim.evaluated_next hagrees hcovers
      (found.trans (arguments.evaluates.trans binding.evaluates)) hext hlocals
      (fun r hr => hkept r (Nat.le_trans hr found.size_le)) (ih ext)

/-- The operations of one expression leave its value in its register. -/
theorem LowersExprs.simulates_one (sim : act.Matches code scope final) {e : Expr}
    {r : Register} {ops : List Op} (h : LowersExprs scope s [e] [r] ops s')
    (ext : s'.Extends final) (fuel : Nat) {store : Store} {frame : Frame}
    (hagrees : store.Agrees frame) (hcovers : s.locals.Covers fun name => (store name).isSome) :
    Run.Rel (Run.Passes fun frame' value => frame'.locals = frame.locals
        ∧ code.Holds frame' r value)
      (code.execOps fuel ops frame) (act.evalExpr store e) := by
  refine (Activation.evaluated_one (h.simulates sim ext fuel hagrees hcovers)).mono ?_
  rintro ⟨_, frame'⟩ value ⟨rfl, hlocals, _, hvalues⟩
  exact ⟨rfl, hlocals, by simpa using hvalues⟩

end ScalarC
