import ScalarC.Proofs.LocalTable
import ScalarC.Proofs.Lowering.StepRelation

/-!
# Growth of the tables

Lowering only adds to the tables of a session: registers keep their numbers and
types, locals their slots, names and types, and string constants their numbers.
Lowering an expression adds registers alone, and leaves the assigned slots as they
are. So whatever was looked up in the middle of lowering is found in the tables of
the finished function.
-/

namespace ScalarC

namespace Session

/-- What lowering a statement may do to the tables: add to them. -/
structure Extends (s s' : Session) : Prop where
  types : s.registers.types <+: s'.registers.types
  numbered : s.registers.Numbered → s'.registers.Numbered
  declared : s.locals.declared <+: s'.locals.declared
  strings : s.strings <+: s'.strings

/-- What lowering an expression may do to the tables: add registers. -/
structure Evaluates (s s' : Session) : Prop where
  types : s.registers.types <+: s'.registers.types
  numbered : s.registers.Numbered → s'.registers.Numbered
  declared : s'.locals.declared = s.locals.declared
  assigned : s'.locals.assigned = s.locals.assigned
  strings : s'.strings = s.strings

theorem Extends.refl (s : Session) : s.Extends s :=
  ⟨List.prefix_rfl, id, List.prefix_rfl, List.prefix_rfl⟩

theorem Extends.trans {s₁ s₂ s₃ : Session} (h : s₁.Extends s₂) (h' : s₂.Extends s₃) :
    s₁.Extends s₃ :=
  ⟨h.types.trans h'.types, h'.numbered ∘ h.numbered, h.declared.trans h'.declared,
    h.strings.trans h'.strings⟩

theorem Evaluates.refl (s : Session) : s.Evaluates s :=
  ⟨List.prefix_rfl, id, rfl, rfl, rfl⟩

theorem Evaluates.trans {s₁ s₂ s₃ : Session} (h : s₁.Evaluates s₂) (h' : s₂.Evaluates s₃) :
    s₁.Evaluates s₃ :=
  ⟨h.types.trans h'.types, h'.numbered ∘ h.numbered, h'.declared.trans h.declared,
    h'.assigned.trans h.assigned, h'.strings.trans h.strings⟩

theorem Evaluates.extends {s s' : Session} (h : s.Evaluates s') : s.Extends s' :=
  ⟨h.types, h.numbered, h.declared ▸ List.prefix_rfl, h.strings ▸ List.prefix_rfl⟩

/-- Registers that were handed out before stay below those that come later. -/
theorem Extends.size_le {s s' : Session} (h : s.Extends s') :
    s.registers.size ≤ s'.registers.size := by
  simpa using h.types.length_le

theorem Evaluates.size_le {s s' : Session} (h : s.Evaluates s') :
    s.registers.size ≤ s'.registers.size :=
  h.extends.size_le

theorem evaluates_defined (s : Session) (ty : Scalar) : s.Evaluates (s.defined ty) :=
  ⟨by simp [defined], fun h => RegisterTable.numbered_addWritten h ty, rfl, rfl, rfl⟩

theorem evaluates_reserved (s : Session) (ty : Scalar) : s.Evaluates (s.reserved ty) :=
  ⟨by simp [reserved], fun h => RegisterTable.numbered_allocate h ty, rfl, rfl, rfl⟩

@[simp] theorem size_defined (s : Session) (ty : Scalar) :
    (s.defined ty).registers.size = s.registers.size + 1 := by
  simp [defined]

@[simp] theorem number_next (s : Session) : s.next.number = s.registers.size + 1 := rfl

/-- The register that is handed out has the type it is handed out for. -/
theorem typeOf?_defined (s : Session) (ty : Scalar) :
    (s.defined ty).registers.typeOf? s.next = some ty := by
  simp [defined, next, RegisterTable.typeOf?_succ, ← RegisterTable.length_types]

theorem extends_restored (s : Session) (slots : SlotSet) : s.Extends (s.restored slots) :=
  ⟨List.prefix_rfl, id, List.prefix_rfl, List.prefix_rfl⟩

end Session

namespace Lower

variable {s s' : Session} {name : String} {ty : Scalar} {r : Register}

theorem markRead_evaluates {u : Unit} (h : markRead r s = .ok (u, s')) : s.Evaluates s' := by
  obtain ⟨table, hmark, rfl⟩ := markRead_ok.1 h
  have htypes := RegisterTable.types_markRead? hmark
  exact ⟨htypes ▸ List.prefix_rfl, RegisterTable.numbered_markRead? hmark, rfl, rfl, rfl⟩

@[simp] theorem size_markRead {u : Unit} (h : markRead r s = .ok (u, s')) :
    s'.registers.size = s.registers.size := by
  obtain ⟨table, hmark, rfl⟩ := markRead_ok.1 h
  simp [← RegisterTable.length_types, RegisterTable.types_markRead? hmark]

theorem readLocal_evaluates (h : readLocal name s = .ok (ty, s')) : s.Evaluates s' := by
  obtain ⟨table, hread, rfl⟩ := readLocal_ok.1 h
  refine ⟨List.prefix_rfl, id, LocalTable.declared_read hread, ?_, rfl⟩
  obtain ⟨_, _, _, _, _, rfl⟩ := LocalTable.read_ok hread
  rfl

theorem readLocal_typeOf? (h : readLocal name s = .ok (ty, s')) :
    s.locals.typeOf? name = some ty := by
  obtain ⟨table, hread, rfl⟩ := readLocal_ok.1 h
  obtain ⟨slot, i, hslot, _, rfl, _⟩ := LocalTable.read_ok hread
  exact (s.indexed.slot?_eq_some hslot).2.2

theorem declareLocal_typeOf? {u : Unit} (h : declareLocal name ty s = .ok (u, s')) :
    s'.locals.typeOf? name = some ty := by
  obtain ⟨table, hdeclare, rfl⟩ := declareLocal_ok.1 h
  exact s.indexed.typeOf?_declareLocal hdeclare

theorem assignLocal_extends {u : Unit} (h : assignLocal name s = .ok (u, s')) :
    s.Extends s' := by
  obtain ⟨ty, table, hassign, rfl⟩ := assignLocal_ok.1 h
  obtain ⟨_, _, _, _, rfl⟩ := LocalTable.assign_ok hassign
  exact ⟨List.prefix_rfl, id, List.prefix_rfl, List.prefix_rfl⟩

theorem declareLocal_extends {u : Unit} (h : declareLocal name ty s = .ok (u, s')) :
    s.Extends s' := by
  obtain ⟨table, hdeclare, rfl⟩ := declareLocal_ok.1 h
  exact ⟨List.prefix_rfl, id, LocalTable.declared_declareLocal hdeclare, List.prefix_rfl⟩

end Lower

namespace Scope

variable {scope : Scope} {s s' : Session}

theorem literalValue_evaluates {value n : Int} {ty : Scalar}
    (h : scope.literalValue value ty s = .ok (n, s')) : s.Evaluates s' := by
  obtain ⟨_, diagnostics, rfl⟩ := literalValue_ok h
  exact ⟨List.prefix_rfl, id, rfl, rfl, rfl⟩

theorem lowerCallee_evaluates {callee : Callee} {target : Symbol × Signature}
    (h : scope.lowerCallee callee s = .ok (target, s')) : s.Evaluates s' := by
  obtain ⟨symbol, signature⟩ := target
  obtain ⟨_, _, ⟨_, rfl⟩ | ⟨_, rfl⟩⟩ := lowerCallee_ok h
  · exact .refl _
  · exact ⟨List.prefix_rfl, id, rfl, rfl, rfl⟩

end Scope

namespace Session

theorem evaluates_registers : RegisterRelation Evaluates where
  refl := .refl
  trans := .trans
  defined := evaluates_defined
  reserved := evaluates_reserved
  markRead := Lower.markRead_evaluates

theorem evaluates_relation (scope : Scope) : ExprRelation scope Evaluates where
  toRegisterRelation := evaluates_registers
  readLocal := Lower.readLocal_evaluates
  literal := Scope.literalValue_evaluates
  callee := Scope.lowerCallee_evaluates

/-- A relation in which sessions are that differ in their registers alone. -/
theorem relation_of_evaluates (scope : Scope) {R : Session → Session → Prop}
    (trans : ∀ {s s₁ s' : Session}, R s s₁ → R s₁ s' → R s s')
    (h : ∀ {s s' : Session}, s.Evaluates s' → R s s') : ExprRelation scope R where
  refl s := h (.refl s)
  trans := trans
  defined s ty := h (evaluates_defined s ty)
  reserved s ty := h (evaluates_reserved s ty)
  markRead hread := h (Lower.markRead_evaluates hread)
  readLocal hread := h (Lower.readLocal_evaluates hread)
  literal hliteral := h (Scope.literalValue_evaluates hliteral)
  callee hcallee := h (Scope.lowerCallee_evaluates hcallee)

theorem extends_relation (scope : Scope) : StepRelation scope Extends where
  toExprRelation := relation_of_evaluates scope .trans Evaluates.extends
  restored := extends_restored
  assignLocal := Lower.assignLocal_extends
  declareLocal := Lower.declareLocal_extends
  addString _ _ _ := ⟨List.prefix_rfl, id, List.prefix_rfl, by simp⟩

end Session

theorem Scope.resultRegister_evaluates {s s' : Session} {returnType : Option Scalar} {keep : Bool}
    {dest : Option Register} (h : resultRegister returnType keep s = .ok (dest, s')) :
    s.Evaluates s' :=
  Session.evaluates_registers.resultRegister h

theorem BindsArgs.evaluates {s s' : Session} {sources bound : List Register}
    {types : List Scalar} {copies : List Op} (h : BindsArgs s sources types bound copies s') :
    s.Evaluates s' :=
  Session.evaluates_registers.bindsArgs h

theorem LowersExprs.evaluates {scope : Scope} {s s' : Session} {es : List Expr}
    {registers : List Register} {ops : List Op} (h : LowersExprs scope s es registers ops s') :
    s.Evaluates s' :=
  (Session.evaluates_relation scope).lowersExprs h

theorem LowersReturn.evaluates {scope : Scope} {s s' : Session} {value : Option Expr}
    {ops : List Op} (h : LowersReturn scope s value ops s') : s.Evaluates s' :=
  (Session.evaluates_relation scope).lowersReturn h

theorem LowersSimple.extends {scope : Scope} {s s' : Session} {statement : Statement}
    {ops : List Op} (h : LowersSimple scope s statement ops s') : s.Extends s' :=
  (Session.extends_relation scope).lowersSimple h

theorem LowersBlock.extends {scope : Scope} {s s' : Session} {block : List Statement}
    {flow : Flow} {ops : List Op} (h : LowersBlock scope s block flow ops s') :
    s.Extends s' :=
  (Session.extends_relation scope).lowersBlock h

theorem LowersParams.extends {s s' : Session} {params : List Parameter}
    (h : LowersParams s params s') : s.Extends s' := by
  induction h with
  | nil s => exact .refl s
  | cons declares tail ih =>
    obtain ⟨table, hdeclare, rfl⟩ := Lower.declareParam_ok.1 declares
    obtain ⟨_, rfl⟩ := LocalTable.declareParam_ok hdeclare
    refine .trans ?_ ((Session.evaluates_reserved _ _).extends.trans ih)
    exact ⟨List.prefix_rfl, id, by simp [LocalTable.declared], List.prefix_rfl⟩

/-- The bounds on registers that are handed out one after the other. -/
theorem Session.bounds_cons {s s₁ s' : Session} {ty : Scalar} {registers : List Register}
    (before : s.Evaluates s₁) (after : (s₁.defined ty).Evaluates s')
    (h : ∀ r ∈ registers,
      (s₁.defined ty).registers.size < r.number ∧ r.number ≤ s'.registers.size) :
    ∀ r ∈ s₁.next :: registers, s.registers.size < r.number ∧ r.number ≤ s'.registers.size := by
  have hbefore := before.size_le
  have hafter := after.size_le
  simp only [size_defined] at hafter h
  intro r hr
  rcases List.mem_cons.1 hr with rfl | hr
  · simp only [number_next]
    omega
  · have hbounds := h r hr
    omega

/-- The registers of lowered expressions are handed out by their lowering. -/
theorem LowersExprs.register_bounds {scope : Scope} {s s' : Session} {es : List Expr}
    {registers : List Register} {ops : List Op} (h : LowersExprs scope s es registers ops s') :
    ∀ r ∈ registers, s.registers.size < r.number ∧ r.number ≤ s'.registers.size := by
  induction h with
  | nil s => simp
  | literal value tail ih =>
    exact Session.bounds_cons (Scope.literalValue_evaluates value) tail.evaluates ih
  | constant found value tail ih =>
    exact Session.bounds_cons (Scope.literalValue_evaluates value) tail.evaluates ih
  | var read tail ih =>
    exact Session.bounds_cons (Lower.readLocal_evaluates read) tail.evaluates ih
  | binary operands readLeft readRight result tail ihOperands ih =>
    exact Session.bounds_cons (operands.evaluates.trans ((Lower.markRead_evaluates readLeft).trans
      (Lower.markRead_evaluates readRight))) tail.evaluates ih
  | cast operand readSource tail ihOperand ih =>
    exact Session.bounds_cons (operand.evaluates.trans (Lower.markRead_evaluates readSource))
      tail.evaluates ih
  | call target arity arguments binding returns tail ihArguments ih =>
    exact Session.bounds_cons ((Scope.lowerCallee_evaluates target).trans
      (arguments.evaluates.trans binding.evaluates)) tail.evaluates ih

theorem LowersExprs.has {scope : Scope} {s s' : Session} {es : List Expr}
    {registers : List Register} {ops : List Op} (h : LowersExprs scope s es registers ops s') :
    ∀ r ∈ registers, s'.registers.Has r := by
  intro r hr
  obtain ⟨hlt, hle⟩ := h.register_bounds r hr
  exact ⟨by omega, hle⟩

end ScalarC
