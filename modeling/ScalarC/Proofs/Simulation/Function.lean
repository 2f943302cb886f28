import ScalarC.Proofs.Simulation.Statement

/-!
# Simulation of functions

The local table of a lowered function gives every local the type under which the
source declares it first. A function and its code then have the same run, provided
that the calls they make do.
-/

namespace ScalarC

variable {scope : Scope} {s s' : Session} {name : String} {ty : Scalar}

namespace LocalTable

variable {t t' : LocalTable}

theorem typeOf?_congr (h : t'.declared = t.declared) (name : String) :
    t'.typeOf? name = t.typeOf? name := by
  rw [typeOf?_eq_declared, h, ← typeOf?_eq_declared]

/-- A new slot is found under its name, unless the name was found before. -/
theorem typeOf?_addSlot (slot : LocalSlot) (index : NameTable Nat) (assigned : SlotSet)
    (other : String) :
    typeOf? { t with slots := t.slots ++ [slot], index, assigned } other
      = (t.typeOf? other).or (declaredType? [⟨slot.name, slot.ty⟩] other) := by
  simp only [typeOf?, declaredType?, List.find?_append]
  cases t.slots.find? (·.name == other) with
  | some _ => rfl
  | none => by_cases heq : slot.name = other <;> simp [heq]

theorem Indexed.typeOf?_declareLocal_eq (h : t.Indexed)
    (hdeclare : t.declareLocal name ty = .ok t') (other : String) :
    t'.typeOf? other = (t.typeOf? other).or (declaredType? [⟨name, ty⟩] other) := by
  rcases declareLocal_ok hdeclare with ⟨slot, i, hslot, _, rfl, rfl⟩ | ⟨_, rfl⟩
  · have hfound := (h.slot?_eq_some hslot).2.2
    by_cases heq : name = other
    · subst heq
      rw [hfound]
      exact hfound
    · simp [declaredType?, heq, typeOf?]
  · exact typeOf?_addSlot _ _ _ other

end LocalTable

theorem Session.Evaluates.typeOf?_eq (h : s.Evaluates s') (name : String) :
    s'.locals.typeOf? name = s.locals.typeOf? name :=
  LocalTable.typeOf?_congr h.declared name

theorem Session.typeOf?_restored (s : Session) (slots : SlotSet) (name : String) :
    (s.restored slots).locals.typeOf? name = s.locals.typeOf? name := rfl

theorem Lower.declareLocal_typeOf?_eq {u : Unit} (h : declareLocal name ty s = .ok (u, s'))
    (other : String) :
    s'.locals.typeOf? other
      = (s.locals.typeOf? other).or (declaredType? [⟨name, ty⟩] other) := by
  obtain ⟨table, hdeclare, rfl⟩ := declareLocal_ok.1 h
  exact s.indexed.typeOf?_declareLocal_eq hdeclare other

theorem Lower.assignLocal_typeOf?_eq {u : Unit} (h : assignLocal name s = .ok (u, s'))
    (other : String) : s'.locals.typeOf? other = s.locals.typeOf? other := by
  obtain ⟨ty, table, hassign, rfl⟩ := assignLocal_ok.1 h
  obtain ⟨_, _, _, _, rfl⟩ := LocalTable.assign_ok hassign
  rfl

/-- A statement without control flow adds what it declares. -/
theorem LowersSimple.typeOf?_eq {statement : Statement} {ops : List Op}
    (h : LowersSimple scope s statement ops s') (name : String) :
    s'.locals.typeOf? name
      = (s.locals.typeOf? name).or (declaredType? statement.declarations name) := by
  cases h with
  | declare declares =>
    rw [(Session.evaluates_reserved _ _).typeOf?_eq]
    exact Lower.declareLocal_typeOf?_eq declares name
  | declareInit declares value assigns reads =>
    rw [(Lower.markRead_evaluates reads).typeOf?_eq, Lower.assignLocal_typeOf?_eq assigns,
      value.evaluates.typeOf?_eq, (Session.evaluates_reserved _ _).typeOf?_eq]
    exact Lower.declareLocal_typeOf?_eq declares name
  | assign known value assigns reads =>
    rw [(Lower.markRead_evaluates reads).typeOf?_eq, Lower.assignLocal_typeOf?_eq assigns,
      value.evaluates.typeOf?_eq]
    simp [Statement.declarations, declaredType?]
  | eval noCall value => simp [value.evaluates.typeOf?_eq, Statement.declarations, declaredType?]
  | evalCall target arity arguments binding dropped =>
    rw [((Scope.lowerCallee_evaluates target).trans (arguments.evaluates.trans
      (binding.evaluates.trans (Scope.resultRegister_evaluates dropped)))).typeOf?_eq]
    simp [Statement.declarations, declaredType?]
  | printValue value typed printer reads =>
    rw [(value.evaluates.trans (Lower.markRead_evaluates reads)).typeOf?_eq]
    simp [Statement.declarations, declaredType?]
  | printChar value reads =>
    rw [(value.evaluates.trans (Lower.markRead_evaluates reads)).typeOf?_eq]
    simp [Statement.declarations, declaredType?]
  | printNewline => simp [Statement.declarations, declaredType?]
  | printText short => simp [Statement.declarations, declaredType?]

theorem LowersSimple.ends_eq {statement : Statement} {ops : List Op}
    (h : LowersSimple scope s statement ops s') : statement.ends = false := by
  cases h <;> rfl

/-- Lowering follows whether control reaches the end of a block. -/
theorem LowersBlock.ends_iff {block : List Statement} {flow : Flow} {ops : List Op}
    (h : LowersBlock scope s block flow ops s') : flow = .returns ↔ blockEnds block = true := by
  induction h with
  | nil s => simp [blockEnds]
  | simple first tail ih => simp [blockEnds, first.ends_eq, ih]
  | ret last => simp [blockEnds, Statement.ends]
  | branchReturns condition reads thenArm elseArm ihThen ihElse =>
    simp_all [blockEnds, Statement.ends]
  | @branch _ _ _ _ _ _ _ _ _ _ _ thenFlow elseFlow _ _ _ _ _ condition reads thenArm elseArm joins
      tail ihThen ihElse ih =>
    cases thenFlow <;> cases elseFlow <;> simp_all [blockEnds, Statement.ends, Flow.join]
  | loop condition reads inner tail ihInner ih => simp [blockEnds, Statement.ends, ih]

/-- A block adds what it declares where control can get. -/
theorem LowersBlock.typeOf?_eq {block : List Statement} {flow : Flow} {ops : List Op}
    (h : LowersBlock scope s block flow ops s') (name : String) :
    s'.locals.typeOf? name
      = (s.locals.typeOf? name).or (declaredType? (blockDeclarations block) name) := by
  induction h with
  | nil s => simp [blockDeclarations, declaredType?]
  | simple first tail ih =>
    simp [ih, first.typeOf?_eq, blockDeclarations, first.ends_eq, declaredType?_append,
      Option.or_assoc]
  | ret last =>
    simp [last.evaluates.typeOf?_eq, blockDeclarations, Statement.declarations, Statement.ends,
      declaredType?]
  | branchReturns condition reads thenArm elseArm ihThen ihElse =>
    have marked := condition.evaluates.trans (Lower.markRead_evaluates reads)
    have hthen := thenArm.ends_iff.1 rfl
    have helse := elseArm.ends_iff.1 rfl
    simp [ihElse, Session.typeOf?_restored, ihThen, marked.typeOf?_eq, blockDeclarations,
      Statement.declarations, Statement.ends, hthen, helse, declaredType?_append, Option.or_assoc]
  | @branch s s₁ s₂ s₃ s₄ s' c r thenBlock elseBlock rest thenFlow elseFlow flow _ _ _ _ condition
      reads thenArm elseArm joins tail ihThen ihElse ih =>
    have marked := condition.evaluates.trans (Lower.markRead_evaluates reads)
    have hends : (blockEnds thenBlock && blockEnds elseBlock) = false := by
      rw [← Bool.not_eq_true, Bool.and_eq_true, ← thenArm.ends_iff, ← elseArm.ends_iff]
      rintro ⟨rfl, rfl⟩
      simp [Flow.join] at joins
    simp [ih, Session.typeOf?_restored, ihElse, ihThen, marked.typeOf?_eq, blockDeclarations,
      Statement.declarations, Statement.ends, hends, declaredType?_append, Option.or_assoc]
  | loop condition reads inner tail ihInner ih =>
    have marked := condition.evaluates.trans (Lower.markRead_evaluates reads)
    simp [ih, Session.typeOf?_restored, ihInner, marked.typeOf?_eq, blockDeclarations,
      Statement.declarations, Statement.ends, declaredType?_append, Option.or_assoc]

/-- Parameters are found with their types. -/
theorem LowersParams.typeOf?_eq {params : List Parameter} (h : LowersParams s params s')
    (name : String) :
    s'.locals.typeOf? name = (s.locals.typeOf? name).or (declaredType? params name) := by
  induction h with
  | nil s => simp [declaredType?]
  | @cons s s₁ s' param rest declares tail ih =>
    obtain ⟨table, hdeclare, rfl⟩ := Lower.declareParam_ok.1 declares
    obtain ⟨_, rfl⟩ := LocalTable.declareParam_ok hdeclare
    have hcons : declaredType? (param :: rest) name
        = (declaredType? [param] name).or (declaredType? rest name) :=
      declaredType?_append [param] rest name
    rw [ih, (Session.evaluates_reserved _ _).typeOf?_eq, hcons, ← Option.or_assoc]
    congr 1
    exact LocalTable.typeOf?_addSlot ⟨param.name, param.ty, true, false⟩ _ _ name

/-- Every parameter is bound to an argument. -/
theorem isSome_ofBindings {params : List Parameter} {args : List Int}
    {bindings : List (String × Int)} (h : bindParams params args = some bindings) :
    ∀ param ∈ params, (Store.ofBindings bindings param.name).isSome := by
  have hnames : bindings.map (·.1) = params.map (·.name) := by
    induction params generalizing args bindings with
    | nil => cases args <;> simp_all [bindParams]
    | cons param params ih =>
      cases args with
      | nil => simp [bindParams] at h
      | cons arg args =>
        obtain ⟨rest, hrest, rfl⟩ := Option.map_eq_some_iff.1 h
        simp [ih hrest]
  intro param hparam
  have hmem : param.name ∈ bindings.map (·.1) := hnames ▸ List.mem_map_of_mem hparam
  obtain ⟨binding, hbinding, hname⟩ := List.mem_map.1 hmem
  simp only [Store.ofBindings, Option.isSome_map, List.find?_isSome]
  exact ⟨binding, hbinding, by simp [hname]⟩

theorem agrees_ofBindings (bindings : List (String × Int)) :
    (Store.ofBindings bindings).Agrees (Frame.ofBindings bindings) := by
  intro name raw hraw
  simp [Frame.ofBindings, hraw]

theorem SourceFunction.covers_session (function : SourceFunction) (P : String → Prop) :
    function.session.locals.Covers P :=
  nofun

/-- A function and its code have the same run if their calls do. -/
theorem LowersFunction.run_eq {shared : Shared} {function : SourceFunction}
    {lowering : FunctionLowering} (h : LowersFunction shared function lowering)
    {act : Activation} {code : CodeActivation}
    (hact : act.function = function) (hcode : code.function = lowering.function)
    (hmeaning : code.meaning = act.meaning)
    (hconstants : ∀ name, shared.constant? name = act.unit.constant? name)
    (hcalls : ∀ {callee s symbol signature s'},
      Scope.lowerCallee { shared, function } callee s = .ok ((symbol, signature), s') →
        ∃ target, act.unit.callee? act.settings callee = some target
          ∧ signature.params = target.paramTypes ∧ signature.returnType = target.returnType
          ∧ code.invoke symbol = act.invoke target)
    (fuel : Nat) (args : List Int) : code.run fuel args = act.run fuel args := by
  cases h with
  | @intro symbol s final flow ops named params body returns =>
  have hnumbered : final.registers.Numbered :=
    body.extends.numbered (params.extends.numbered rfl)
  have htypes : ∀ name, final.locals.typeOf? name = function.localType? name := by
    intro name
    rw [body.typeOf?_eq, params.typeOf?_eq, SourceFunction.localType?, declaredType?_append]
    rfl
  have sim : act.Matches code { shared, function } final :=
    { meaning := hmeaning
      function := hact
      returnType := by rw [hcode, hact]
      constants := fun hfound => by rw [← hconstants, hfound]
      calls := hcalls
      registers := fun r => by
        rw [hcode]
        exact RegisterTable.find?_register hnumbered r
      localsCode := fun name => by rw [hcode]; rfl
      localsSource := fun name => by rw [hact, htypes]
      strings := by rw [hcode] }
  have hparams : code.function.params = act.function.params := by rw [hcode, hact]
  have hops : code.function.ops = ops := by rw [hcode]
  simp only [CodeActivation.run, Activation.run, hparams, hops, hact]
  refine Run.Rel.eq ?_
  cases hbind : bindParams function.params args with
  | none => exact fun _ => .none
  | some bindings =>
    simp only [Run.ofOption_some, pure_bind]
    have hcovers : s.locals.Covers fun name => (Store.ofBindings bindings name).isSome :=
      params.covers (function.covers_session _) (isSome_ofBindings hbind)
    refine (body.simulates sim (.refl final) (agrees_ofBindings bindings) hcovers).bind ?_
    rintro ⟨outcome, _⟩ ⟨_, _⟩ ⟨rfl, _⟩
    exact .refl _

end ScalarC
