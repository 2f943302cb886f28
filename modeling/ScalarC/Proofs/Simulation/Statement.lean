import ScalarC.Proofs.Simulation.Expr

/-!
# Simulation of statements

The operations of a lowered block leave the block in the same way as its statements,
with the same numbers in the locals. Along the way every local that lowering takes as
assigned holds a number in the store. A store never forgets a local, so this stays
true behind a loop, where lowering goes back to the locals assigned before it.
-/

namespace ScalarC

/-- From `store`, source and code get to a store and a frame that agree; nothing is
forgotten, and the assigned locals hold a number. -/
structure Store.Reaches (store : Store) (locals : LocalTable) (frame' : Frame)
    (store' : Store) : Prop where
  agrees : store'.Agrees frame'
  keeps : ∀ name, (store name).isSome → (store' name).isSome
  covers : locals.Covers fun name => (store' name).isSome

/-- Source and code leave in the same way, and pass control only if `flow` says so. -/
def Store.Ends (store : Store) (flow : Flow) (locals : LocalTable) (a : Outcome × Frame)
    (b : Outcome × Store) : Prop :=
  a.1 = b.1 ∧ (a.1 = .continues → flow = .continues ∧ store.Reaches locals a.2 b.2)

namespace Store

variable {store store' : Store} {frame : Frame} {locals locals' : LocalTable} {flow flow' : Flow}

theorem Agrees.set (h : store.Agrees frame) (name : String) (raw : Int) :
    (store.set name raw).Agrees (frame.setLocal name raw) := by
  intro other n hn
  by_cases heq : other = name
  · simp_all [Store.set, Frame.setLocal]
  · simp only [Store.set, heq, if_false] at hn
    simpa [Frame.setLocal, heq] using h other n hn

theorem isSome_set {name other : String} {raw : Int} :
    (store.set name raw other).isSome ↔ other = name ∨ (store other).isSome := by
  by_cases heq : other = name <;> simp [Store.set, heq]

/-- Nothing is stored. -/
theorem Reaches.of_locals {frame' : Frame} (hagrees : store.Agrees frame)
    (hlocals : frame'.locals = frame.locals)
    (hcovers : locals.Covers fun name => (store name).isSome) :
    store.Reaches locals frame' store :=
  ⟨hagrees.of_locals hlocals, fun _ => id, hcovers⟩

theorem Ends.of_keeps (hkeeps : ∀ name, (store name).isSome → (store' name).isSome)
    {a : Outcome × Frame} {b : Outcome × Store} (h : store'.Ends flow locals a b) :
    store.Ends flow locals a b := by
  refine ⟨h.1, fun hcontinues => ?_⟩
  obtain ⟨hflow, hreaches⟩ := h.2 hcontinues
  exact ⟨hflow, hreaches.agrees, fun name hname => hreaches.keeps name (hkeeps name hname),
    hreaches.covers⟩

theorem Ends.returned {value : Option Int} :
    store.Ends flow locals (.returned value, frame) (.returned value, store') :=
  ⟨rfl, fun hcontinues => by cases hcontinues⟩

/-- What follows is run exactly where control passes. -/
theorem Ends.andThen {x : Run (Outcome × Frame)} {y : Run (Outcome × Store)}
    {f : Frame → Run (Outcome × Frame)} {g : Store → Run (Outcome × Store)}
    (h : Run.Rel (store.Ends flow locals) x y)
    (hnext : ∀ frame' store', flow = .continues → store.Reaches locals frame' store' →
      Run.Rel (store'.Ends flow' locals') (f frame') (g store')) :
    Run.Rel (store.Ends flow' locals') (Run.andThen x f) (Run.andThen y g) := by
  refine Run.Rel.andThen h (fun frame' store' hcontinues => ?_) fun value _ _ _ => .returned
  obtain ⟨hflow, hreaches⟩ := hcontinues rfl
  exact (hnext frame' store' hflow hreaches).mono fun _ _ => .of_keeps hreaches.keeps

end Store

variable {act : Activation} {code : CodeActivation} {scope : Scope} {final s s' : Session}
  {store : Store} {frame : Frame} {fuel : Nat}

/-- Storing a register assigns the value it holds. -/
theorem Activation.Matches.simulates_store (sim : act.Matches code scope final)
    {name : String} {ty : Scalar} {value : Value} {r : Register}
    (htype : s.locals.typeOf? name = some ty) (ext : s.Extends final)
    (hholds : code.Holds frame r value) (hagrees : store.Agrees frame)
    (hcovers : s.locals.Covers fun other => other = name ∨ (store other).isSome) :
    Run.Rel (Run.Passes (store.Reaches s.locals)) (code.execOps fuel [.storeLocal name r] frame)
      (act.assign store name ty value) := by
  have hlocal : code.function.localType? name = some ty := by
    rw [sim.localsCode]
    exact LocalTable.typeOf?_of_prefix ext.declared htype
  rw [code.execOps_simple fuel rfl]
  simp only [CodeActivation.execSimple, CodeActivation.operand_of_holds hholds, hlocal,
    sim.meaning, Run.ofOption_some, pure_bind, bind_assoc, Activation.assign]
  refine .bind_same fun raw => .pure ⟨rfl, hagrees.set name raw, fun other hother => ?_, ?_⟩
  · exact Store.isSome_set.2 (.inr hother)
  · exact hcovers.mono fun other => Store.isSome_set.2

/-- The value of an expression is assigned to a local. -/
theorem LowersExprs.simulates_assign (sim : act.Matches code scope final) {s₁ s₂ : Session}
    {e : Expr} {r : Register} {ops : List Op} {name : String} {ty : Scalar}
    (value : LowersExprs scope s [e] [r] ops s₁)
    (assigns : Lower.assignLocal name s₁ = .ok ((), s₂))
    (reads : Lower.markRead r s₂ = .ok ((), s')) (ext : s'.Extends final)
    (htype : s.locals.typeOf? name = some ty) (hagrees : store.Agrees frame)
    (hcovers : s.locals.Covers fun name => (store name).isSome) :
    Run.Rel (Run.Passes (store.Reaches s'.locals))
      (code.execOps fuel (ops ++ [.storeLocal name r]) frame)
      (act.evalExpr store e >>= act.assign store name ty) := by
  have hafter := (Lower.assignLocal_extends assigns).trans
    (Lower.markRead_evaluates reads).extends
  rw [code.execOps_append]
  refine (value.simulates_one sim (hafter.trans ext) fuel hagrees hcovers).andThen_passes ?_
  rintro φ v ⟨hlocals, hholds⟩
  refine sim.simulates_store (LocalTable.typeOf?_of_prefix
    (value.evaluates.extends.trans hafter).declared htype) ext hholds
    (hagrees.of_locals hlocals) ?_
  exact (Lower.markRead_evaluates reads).covers
    (Lower.assignLocal_covers (value.evaluates.covers hcovers) assigns)

/-- The value of an expression is printed by a routine that its type decides on. -/
theorem LowersExprs.simulates_print (sim : act.Matches code scope final) {s₁ : Session}
    {e : Expr} {r : Register} {ops : List Op} {routine : Routine}
    (value : LowersExprs scope s [e] [r] ops s₁)
    (reads : Lower.markRead r s₁ = .ok ((), s')) (ext : s'.Extends final)
    (hagrees : store.Agrees frame) (hcovers : s.locals.Covers fun name => (store name).isSome)
    {print : Value → Run Unit}
    (hprint : ∀ v, code.function.registerType? r = some v.ty →
      print v = Run.emit (.print routine (.value v))) :
    Run.Rel (Run.Passes (store.Reaches s'.locals))
      (code.execOps fuel (ops ++ [.print routine (.register r)]) frame)
      (act.evalExpr store e >>= fun v => print v >>= fun _ => pure store) := by
  have marked := Lower.markRead_evaluates reads
  rw [code.execOps_append]
  refine (value.simulates_one sim (marked.extends.trans ext) fuel hagrees hcovers).andThen_passes ?_
  rintro φ v ⟨hlocals, hholds⟩
  rw [code.execOps_simple fuel rfl, hprint v hholds.1]
  simp only [CodeActivation.execSimple, CodeActivation.printed,
    CodeActivation.operand_of_holds hholds, pure_bind, bind_assoc]
  refine .bind_same fun _ => .pure ⟨rfl, .of_locals hagrees hlocals ?_⟩
  exact (value.evaluates.trans marked).covers hcovers

/-- A statement without control flow passes control. -/
theorem LowersSimple.simulates (sim : act.Matches code scope final) {statement : Statement}
    {ops : List Op} (h : LowersSimple scope s statement ops s') (ext : s'.Extends final)
    (hagrees : store.Agrees frame) (hcovers : s.locals.Covers fun name => (store name).isSome) :
    Run.Rel (Run.Passes (store.Reaches s'.locals)) (code.execOps fuel ops frame)
      (act.execSimple store statement) := by
  cases h with
  | declare declares =>
    refine .pure ⟨rfl, .of_locals hagrees rfl ?_⟩
    exact (Session.evaluates_reserved _ _).covers
      ((Lower.declareLocal_covers hcovers declares).mono fun _ => And.right)
  | @declareInit s₁ s₂ s₃ _ name ty e r ops declares value assigns reads =>
    have hreserved := s₁.evaluates_reserved ty
    exact value.simulates_assign sim assigns reads ext (LocalTable.typeOf?_of_prefix
      hreserved.extends.declared (Lower.declareLocal_typeOf? declares)) hagrees
      (hreserved.covers ((Lower.declareLocal_covers hcovers declares).mono fun _ => And.right))
  | @assign s₁ s₂ _ name ty e r ops known value assigns reads =>
    have htype := s.indexed.typeOf?_of_typeOf known
    have hextends := value.evaluates.extends.trans ((Lower.assignLocal_extends assigns).trans
      (Lower.markRead_evaluates reads).extends)
    simp only [Activation.execSimple, sim.localType?_eq (hextends.trans ext) htype,
      Run.ofOption_some, pure_bind]
    exact value.simulates_assign sim assigns reads ext htype hagrees hcovers
  | @eval _ e r _ noCall value =>
    have hdrop : act.execSimple store (.eval e) = act.evalExpr store e >>= fun _ => pure store := by
      cases e <;> simp_all [Activation.execSimple, Activation.dropExpr]
    rw [hdrop, ← List.append_nil ops, code.execOps_append]
    refine (value.simulates_one sim ext fuel hagrees hcovers).andThen_passes ?_
    rintro φ v ⟨hlocals, _⟩
    exact .pure ⟨rfl, .of_locals hagrees hlocals (value.evaluates.covers hcovers)⟩
  | @evalCall s₁ s₂ s₃ _ callee args symbol signature sources bound argOps copies target arity
      arguments binding dropped =>
    have found := Scope.lowerCallee_evaluates target
    have last := Scope.resultRegister_evaluates dropped
    have hext₃ := last.extends.trans ext
    obtain ⟨function, hcallee, hparams, _, hinvoke⟩ := sim.calls target
    rw [code.execOps_append]
    simp only [Activation.execSimple, Activation.dropExpr, Activation.call, hcallee, ← hparams,
      Run.ofOption_some, bind_assoc, pure_bind]
    rw [← bind_assoc]
    refine (binding.simulates_args sim hext₃ (arguments.simulates sim
      (binding.evaluates.extends.trans hext₃) fuel hagrees (found.covers hcovers))
      (fun r hr => (arguments.register_bounds r hr).2)
      arguments.evaluates.size_le).andThen_passes ?_
    rintro φ raws ⟨hlocals, _, rfl⟩
    rw [code.execOps_simple fuel rfl]
    simp only [CodeActivation.execSimple, CodeActivation.receive, hinvoke, bind_assoc, pure_bind]
    refine .bind_same fun _ => .pure ⟨rfl, .of_locals hagrees hlocals ?_⟩
    exact (found.trans (arguments.evaluates.trans (binding.evaluates.trans last))).covers hcovers
  | @printValue s₁ _ e r ty routine ops value typed printer reads =>
    have hty := sim.registerType?_eq ((Lower.markRead_evaluates reads).extends.trans ext) typed
    rw [Activation.execSimple, Activation.print, bind_assoc]
    refine value.simulates_print sim reads ext hagrees hcovers ?_
    intro v hv
    have heq : v.ty = ty := by simpa [hv] using hty
    rw [heq, printer, Run.ofOption_some, pure_bind]
  | @printChar s₁ _ e r ops value reads =>
    rw [Activation.execSimple, Activation.print, bind_assoc]
    exact value.simulates_print sim reads ext hagrees hcovers fun _ _ => rfl
  | printNewline =>
    rw [code.execOps_simple fuel rfl]
    simp only [CodeActivation.execSimple, CodeActivation.printed, Activation.execSimple,
      Activation.print, pure_bind, bind_assoc]
    exact .bind_same fun _ => .pure ⟨rfl, .of_locals hagrees rfl hcovers⟩
  | @printText text short =>
    have htext : code.function.strings[s.strings.length]? = some text := by
      obtain ⟨added, heq⟩ := ext.strings
      rw [sim.strings, ← heq]
      simp
    rw [code.execOps_simple fuel rfl]
    simp only [CodeActivation.execSimple, CodeActivation.printed, Activation.execSimple,
      Activation.print, htext, Run.ofOption_some, pure_bind, bind_assoc]
    exact .bind_same fun _ => .pure ⟨rfl, .of_locals hagrees rfl hcovers⟩

/-- A return hands back the same number. -/
theorem LowersReturn.simulates (sim : act.Matches code scope final) {value : Option Expr}
    {ops : List Op} (h : LowersReturn scope s value ops s') (ext : s'.Extends final)
    (hagrees : store.Agrees frame) (hcovers : s.locals.Covers fun name => (store name).isSome) :
    Run.Rel (fun a result => a.1 = .returned result) (code.execOps fuel ops frame)
      (act.execReturn store value) := by
  cases h with
  | value declared value reads =>
    have hext₁ := (Lower.markRead_evaluates reads).extends.trans ext
    rw [code.execOps_append]
    refine (value.simulates_one sim hext₁ fuel hagrees hcovers).andThen_passes ?_
    rintro φ v ⟨_, hholds⟩
    simp only [code.execOps_ret, CodeActivation.execReturn, CodeActivation.operand_of_holds hholds,
      sim.meaning, sim.returnType, pure_bind, bind_assoc]
    exact .bind_same fun ty => .bind_same fun raw => .pure rfl
  | nothing declared =>
    rw [code.execOps_ret]
    exact .pure rfl

/-- A statement without control flow is run by `execSimple`. -/
theorem LowersSimple.execBlock_cons {statement : Statement} {ops : List Op}
    (h : LowersSimple scope s statement ops s') (rest : List Statement) :
    act.execBlock fuel (statement :: rest) store
      = act.execSimple store statement >>= act.execBlock fuel rest := by
  cases h <;> simp [Activation.execBlock, Activation.execStatement, Run.andThen]

/-- A branch takes the same arm in source and code. -/
theorem LowersExprs.simulates_branch (sim : act.Matches code scope final) {c : Expr}
    {r : Register} {condOps thenOps elseOps restOps : List Op}
    {thenBlock elseBlock rest : List Statement}
    (condition : LowersExprs scope s [c] [r] condOps s') (ext : s'.Extends final)
    (hagrees : store.Agrees frame) (hcovers : s.locals.Covers fun name => (store name).isSome)
    {S : Outcome × Frame → Outcome × Store → Prop}
    (hthen : ∀ φ, store.Agrees φ →
      Run.Rel S (Run.andThen (code.execOps fuel thenOps φ) (code.execOps fuel restOps))
        (Run.andThen (act.execBlock fuel thenBlock store) (act.execBlock fuel rest)))
    (helse : ∀ φ, store.Agrees φ →
      Run.Rel S (Run.andThen (code.execOps fuel elseOps φ) (code.execOps fuel restOps))
        (Run.andThen (act.execBlock fuel elseBlock store) (act.execBlock fuel rest))) :
    Run.Rel S (code.execOps fuel (condOps ++ .branch r thenOps elseOps :: restOps) frame)
      (act.execBlock fuel (.branch c thenBlock elseBlock :: rest) store) := by
  rw [code.execOps_append, Activation.execBlock, Activation.execStatement, Run.andThen_bind]
  refine (condition.simulates_one sim ext fuel hagrees hcovers).andThen_passes ?_
  rintro φ v ⟨hlocals, hholds⟩
  rw [CodeActivation.execOps, CodeActivation.execOp, hholds.2]
  by_cases hzero : v.raw ≠ 0
  · rw [if_pos hzero, if_pos hzero]
    exact hthen φ (hagrees.of_locals hlocals)
  · rw [if_neg hzero, if_neg hzero]
    exact helse φ (hagrees.of_locals hlocals)

/-- A loop: every pass starts and ends with the locals of the loop's entry assigned. -/
theorem LowersExprs.simulates_loop (sim : act.Matches code scope final) {c : Expr}
    {r : Register} {condOps bodyOps : List Op} {body : List Statement} {bodyFlow : Flow}
    {locals' : LocalTable}
    (condition : LowersExprs scope s [c] [r] condOps s') (ext : s'.Extends final)
    (inner : ∀ {store : Store} {φ : Frame}, store.Agrees φ →
      (s'.locals.Covers fun name => (store name).isSome) →
      Run.Rel (store.Ends bodyFlow locals') (code.execOps fuel bodyOps φ)
        (act.execBlock fuel body store))
    (hagrees : store.Agrees frame) (hcovers : s.locals.Covers fun name => (store name).isSome) :
    Run.Rel (store.Ends .continues s.locals) (code.execOp fuel (.loop condOps r bodyOps) frame)
      (act.execStatement fuel (.loop c body) store) := by
  rw [CodeActivation.execOp, Activation.execStatement]
  refine Run.Rel.iterate (R := store.Reaches s.locals) ?_ fuel (.of_locals hagrees rfl hcovers)
  rintro frame₁ store₁ ⟨hagrees₁, hkeeps₁, hcovers₁⟩
  refine (condition.simulates_one sim ext fuel hagrees₁ hcovers₁).bind ?_
  rintro ⟨_, φ⟩ v ⟨rfl, hlocals, hholds⟩
  have hφ : store₁.Agrees φ := hagrees₁.of_locals hlocals
  have hraw : φ.registers r = v.raw := hholds.2
  simp only [hraw]
  by_cases hzero : v.raw ≠ 0
  · rw [if_pos hzero, if_pos hzero]
    refine (inner hφ (condition.evaluates.covers hcovers₁)).bind ?_
    rintro ⟨outcome, φ'⟩ ⟨_, store'⟩ ⟨rfl, hends⟩
    refine .pure ⟨rfl, fun hagain => ?_, fun hleave => ?_, fun value hvalue => .returned⟩
    · -- a pass forgets nothing, so what was assigned at the entry still is
      cases outcome with
      | continues =>
        obtain ⟨_, hreaches⟩ := hends rfl
        exact ⟨hreaches.agrees, fun name hname => hreaches.keeps name (hkeeps₁ name hname),
          hcovers₁.mono hreaches.keeps⟩
      | returned value => simp [Outcome.pass] at hagain
    · cases outcome <;> simp [Outcome.pass] at hleave
  · rw [if_neg hzero, if_neg hzero]
    exact .pure ⟨rfl, by simp, fun _ => ⟨rfl, fun _ => ⟨rfl, hφ, hkeeps₁, hcovers₁⟩⟩, by simp⟩

/-- A block: source and code leave it in the same way. -/
theorem LowersBlock.simulates (sim : act.Matches code scope final) {block : List Statement}
    {flow : Flow} {ops : List Op} (h : LowersBlock scope s block flow ops s')
    (ext : s'.Extends final) (hagrees : store.Agrees frame)
    (hcovers : s.locals.Covers fun name => (store name).isSome) :
    Run.Rel (store.Ends flow s'.locals) (code.execOps fuel ops frame)
      (act.execBlock fuel block store) := by
  induction h generalizing store frame with
  | nil s => exact .pure ⟨rfl, fun _ => ⟨rfl, .of_locals hagrees rfl hcovers⟩⟩
  | simple first tail ih =>
    rw [code.execOps_append, first.execBlock_cons]
    refine (first.simulates sim (tail.extends.trans ext) hagrees hcovers).andThen_passes ?_
    rintro φ store' ⟨hagrees', hkeeps, hcovers'⟩
    exact (ih ext hagrees' hcovers').mono fun _ _ => .of_keeps hkeeps
  | ret last =>
    simp only [Activation.execBlock, Activation.execStatement, Run.andThen, bind_assoc, pure_bind]
    refine (last.simulates sim ext hagrees hcovers).map_right ?_
    rintro ⟨_, φ⟩ result rfl
    exact .returned
  | @branchReturns s s₁ s₂ s₃ s₄ c r thenBlock elseBlock rest condOps thenOps elseOps condition
      reads thenArm elseArm ihThen ihElse =>
    have marked := Lower.markRead_evaluates reads
    have hext₃ := (s₃.extends_restored s₂.locals.assigned).trans (elseArm.extends.trans ext)
    have hcovers₂ := (condition.evaluates.trans marked).covers hcovers
    refine condition.simulates_branch sim (marked.extends.trans (thenArm.extends.trans hext₃))
      hagrees hcovers (fun φ hφ => ?_) (fun φ hφ => ?_)
    · exact Store.Ends.andThen (ihThen hext₃ hφ hcovers₂) fun _ _ hflow => by cases hflow
    · exact Store.Ends.andThen (ihElse ext hφ (hcovers₂.of_subset thenArm.extends.declared
        fun _ => id)) fun _ _ hflow => by cases hflow
  | @branch s s₁ s₂ s₃ s₄ s' c r thenBlock elseBlock rest thenFlow elseFlow flow condOps thenOps
      elseOps restOps condition reads thenArm elseArm joins tail ihThen ihElse ih =>
    have marked := Lower.markRead_evaluates reads
    have hext₄ := (s₄.extends_restored (Flow.joinAssigned thenFlow elseFlow s₃.locals.assigned
      s₄.locals.assigned)).trans (tail.extends.trans ext)
    have hthen := (s₃.extends_restored s₂.locals.assigned).trans elseArm.extends
    have hext₃ := hthen.trans hext₄
    have hcovers₂ := (condition.evaluates.trans marked).covers hcovers
    refine condition.simulates_branch sim (marked.extends.trans (thenArm.extends.trans hext₃))
      hagrees hcovers (fun φ hφ => ?_) (fun φ hφ => ?_)
    · refine Store.Ends.andThen (ihThen hext₃ hφ hcovers₂) ?_
      rintro φ' store' rfl ⟨hagrees', _, hcovers'⟩
      exact ih ext hagrees' (hcovers'.of_subset hthen.declared
        fun _ => Flow.mem_joinAssigned_then)
    · refine Store.Ends.andThen (ihElse hext₄ hφ (hcovers₂.of_subset thenArm.extends.declared
        fun _ => id)) ?_
      rintro φ' store' rfl ⟨hagrees', _, hcovers'⟩
      exact ih ext hagrees' (hcovers'.of_subset List.prefix_rfl
        fun _ => Flow.mem_joinAssigned_else)
  | @loop s s₁ s₂ s₃ s' c r body rest bodyFlow flow condOps bodyOps restOps condition reads inner
      tail ihInner ih =>
    have marked := Lower.markRead_evaluates reads
    have hext₃ := (s₃.extends_restored s.locals.assigned).trans (tail.extends.trans ext)
    have hext₂ := inner.extends.trans hext₃
    rw [CodeActivation.execOps, Activation.execBlock]
    refine Store.Ends.andThen (condition.simulates_loop sim (marked.extends.trans hext₂)
      (fun hagrees hcovers => ihInner hext₃ hagrees (marked.covers hcovers)) hagrees hcovers) ?_
    rintro φ store' _ ⟨hagrees', _, hcovers'⟩
    exact ih ext hagrees' (hcovers'.of_subset ((condition.evaluates.trans marked).extends.trans
      inner.extends).declared fun _ => id)

end ScalarC
