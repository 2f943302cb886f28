import ScalarC.Proofs.OpEquality
import ScalarC.Proofs.OpTree
import ScalarC.Proofs.Paths.Unassigned

/-!
# Returns on the paths of a function

A function that declares a return type is lowered only if every path through its code ends at
a return with a value. It is refused if control can pass its end, or can meet a return without
a value. Statements behind which control cannot continue cut off the rest of their block, so
what stands there does not count on either side.

## Main definitions

* `Op.blockVisits`, `Statement.blockVisits`: the control paths, with the operations or the
  statements on them other than branches and loops.
* `Paths.Exits`: how paths end.
-/

namespace ScalarC

/-! ## Ends of paths -/

namespace Paths

variable {α : Type} {X Y : Paths α} {last : α → Prop} {flow flow' : Flow} {event : α}

/-- The paths that return end with a last event, and others exist only if control can
continue. -/
structure Exits (X : Paths α) (last : α → Prop) (flow : Flow) : Prop where
  returns : ∀ path, X path .returns → ∃ pre event, path = pre ++ [event] ∧ last event
  continues : ∀ path, X path .continues → flow = .continues

namespace Exits

theorem steps (events : List α) : Exits (steps events) last .continues :=
  ⟨fun _ h => (nomatch h.2), fun _ _ => rfl⟩

theorem ret (h : last event) : Exits (.seq (Paths.steps [event]) stop) last .returns where
  returns := by
    rintro path (⟨⟨_, hflow⟩, _⟩ | ⟨first, rest, rfl, ⟨rfl, _⟩, rfl, _⟩)
    · cases hflow
    · exact ⟨[], event, rfl, h⟩
  continues := by
    rintro path (⟨_, hflow⟩ | ⟨first, rest, _, _, _, hflow⟩) <;> cases hflow

theorem seq (hX : Exits X last flow) (hY : Exits Y last flow') : Exits (.seq X Y) last flow' where
  returns := by
    rintro path (⟨hpath, _⟩ | ⟨first, rest, rfl, _, hrest⟩)
    · exact hX.returns path hpath
    · obtain ⟨pre, event, rfl, hlast⟩ := hY.returns rest hrest
      exact ⟨first ++ pre, event, (List.append_assoc _ _ _).symm, hlast⟩
  continues := by
    rintro path (⟨_, hflow⟩ | ⟨first, rest, _, _, hrest⟩)
    · cases hflow
    · exact hY.continues rest hrest

theorem either (hX : Exits X last flow) (hY : Exits Y last flow') :
    Exits (.either X Y) last (flow.join flow') where
  returns := by
    rintro path (hpath | hpath)
    · exact hX.returns path hpath
    · exact hY.returns path hpath
  continues := by
    rintro path (hpath | hpath)
    · rw [hX.continues path hpath]
      rfl
    · rw [hY.continues path hpath]
      cases flow <;> rfl

theorem loop (hX : Exits X last flow) (hY : Exits Y last flow') :
    Exits (Loop X Y) last .continues where
  returns := by
    intro path hpath
    generalize hflow : Flow.returns = exit at hpath
    induction hpath with
    | leave test => cases hflow
    | stopTest test => exact hX.returns _ test
    | stopBody test pass =>
      obtain ⟨pre, event, rfl, hlast⟩ := hY.returns _ pass
      exact ⟨_, event, (List.append_assoc _ _ _).symm, hlast⟩
    | again test pass tail ih =>
      obtain ⟨pre, event, rfl, hlast⟩ := ih hflow
      exact ⟨_, event, (List.append_assoc _ _ _).symm, hlast⟩
  continues := fun _ _ => rfl

end Exits

end Paths

/-! ## Operations -/

namespace Op

/-- Control passes the operation in one way. -/
def isStraight : Op → Bool
  | .ret _ | .branch _ _ _ | .loop _ _ _ => false
  | _ => true

mutual

/-- The paths through an operation, with the operations on them. -/
def visits : Op → Paths Op
  | .ret value => .seq (.steps [.ret value]) .stop
  | .branch _ thenOps elseOps => .either (blockVisits thenOps) (blockVisits elseOps)
  | .loop condOps _ body => .Loop (blockVisits condOps) (blockVisits body)
  | op => .steps [op]

/-- The paths through operations that run one after the other. -/
def blockVisits : List Op → Paths Op
  | [] => .steps []
  | op :: rest => .seq op.visits (blockVisits rest)

end

theorem blockVisits_append (ops rest : List Op) :
    blockVisits (ops ++ rest) = .seq (blockVisits ops) (blockVisits rest) := by
  induction ops with
  | nil => simp [blockVisits, Paths.steps_nil_seq]
  | cons op ops ih => simp [blockVisits, ih, Paths.seq_assoc]

theorem blockVisits_singleton (op : Op) : blockVisits [op] = op.visits := by
  simp [blockVisits, Paths.seq_steps_nil]

variable {ops : List Op}

theorem blockVisits_straight (h : ∀ op ∈ ops, op.isStraight = true) :
    blockVisits ops = .steps ops := by
  induction ops with
  | nil => rfl
  | cons op ops ih =>
    obtain ⟨hop, hops⟩ := List.forall_mem_cons.1 h
    have hvisits : op.visits = .steps [op] := by
      cases op <;> simp_all [isStraight, visits]
    rw [blockVisits, hvisits, ih hops, ← Paths.steps_append, List.singleton_append]

theorem nestedAll_straight (h : ∀ op ∈ ops, op.isStraight = true) : nestedAll ops = ops := by
  induction ops with
  | nil => rfl
  | cons op ops ih =>
    obtain ⟨hop, hops⟩ := List.forall_mem_cons.1 h
    have hnested : op.nested = [op] := by
      cases op <;> simp_all [isStraight, nested]
    rw [nestedAll, hnested, ih hops, List.singleton_append]

end Op

section Derivations

variable {scope : Scope} {s s' : Session}

theorem BindsArgs.straight {sources bound : List Register} {types : List Scalar}
    {copies : List Op} (h : BindsArgs s sources types bound copies s') :
    ∀ op ∈ copies, op.isStraight = true := by
  induction h with
  | nil s => simp
  | cons readSource readCopy tail ih => exact List.forall_mem_cons.2 ⟨rfl, ih⟩

theorem LowersExprs.straight {es : List Expr} {registers : List Register} {ops : List Op}
    (h : LowersExprs scope s es registers ops s') : ∀ op ∈ ops, op.isStraight = true := by
  induction h with
  | nil s => simp
  | literal value tail ih => exact List.forall_mem_cons.2 ⟨rfl, ih⟩
  | constant found value tail ih => exact List.forall_mem_cons.2 ⟨rfl, ih⟩
  | var read tail ih => exact List.forall_mem_cons.2 ⟨rfl, ih⟩
  | binary operands readLeft readRight result tail ihOperands ih =>
    exact List.forall_mem_append.2 ⟨ihOperands, List.forall_mem_cons.2 ⟨rfl, ih⟩⟩
  | cast operand readSource tail ihOperand ih =>
    exact List.forall_mem_append.2 ⟨ihOperand, List.forall_mem_cons.2 ⟨rfl, ih⟩⟩
  | call target arity arguments binding returns tail ihArguments ih =>
    exact List.forall_mem_append.2 ⟨List.forall_mem_append.2 ⟨ihArguments, binding.straight⟩,
      List.forall_mem_cons.2 ⟨rfl, ih⟩⟩

theorem LowersExprs.straight_snoc {es : List Expr} {registers : List Register} {ops : List Op}
    {op : Op} (h : LowersExprs scope s es registers ops s') (hop : op.isStraight = true) :
    ∀ other ∈ ops ++ [op], other.isStraight = true :=
  List.forall_mem_append.2 ⟨h.straight, List.forall_mem_singleton.2 hop⟩

theorem LowersSimple.straight {statement : Statement} {ops : List Op}
    (h : LowersSimple scope s statement ops s') : ∀ op ∈ ops, op.isStraight = true := by
  cases h with
  | declare declares => simp
  | declareInit declares value assigns reads => exact value.straight_snoc rfl
  | assign known value assigns reads => exact value.straight_snoc rfl
  | eval noCall value => exact value.straight
  | evalCall target arity arguments binding dropped =>
    exact List.forall_mem_append.2 ⟨List.forall_mem_append.2
      ⟨arguments.straight, binding.straight⟩, List.forall_mem_singleton.2 rfl⟩
  | printValue value typed printer reads => exact value.straight_snoc rfl
  | printChar value reads => exact value.straight_snoc rfl
  | printNewline => exact List.forall_mem_singleton.2 rfl
  | printText short => exact List.forall_mem_singleton.2 rfl

/-- A return that fits the function. -/
def Scope.Returns (scope : Scope) (op : Op) : Prop :=
  ∃ value, op = .ret value ∧ value.isSome = scope.function.returnType.isSome

open Paths

theorem Op.exits_straight {ops : List Op} (h : ∀ op ∈ ops, op.isStraight = true) :
    Exits (blockVisits ops) scope.Returns .continues := by
  rw [blockVisits_straight h]
  exact .steps ops

/-- Straight operations, and what follows them. -/
theorem Op.exits_append {ops rest : List Op} {flow : Flow}
    (h : ∀ op ∈ ops, op.isStraight = true)
    (hrest : Exits (blockVisits rest) scope.Returns flow) :
    Exits (blockVisits (ops ++ rest)) scope.Returns flow := by
  rw [blockVisits_append]
  exact (exits_straight h).seq hrest

theorem LowersReturn.exits {value : Option Expr} {ops : List Op}
    (h : LowersReturn scope s value ops s') :
    Exits (Op.blockVisits ops) scope.Returns .returns := by
  cases h with
  | @value s₁ s' ty e r ops declared value reads =>
    refine Op.exits_append value.straight ?_
    rw [Op.blockVisits_singleton]
    exact .ret ⟨some r, rfl, by simp [declared]⟩
  | nothing declared =>
    rw [Op.blockVisits_singleton]
    exact .ret ⟨none, rfl, by simp [declared]⟩

/-- The paths through a lowered block end as its flow says. -/
theorem LowersBlock.exits {block : List Statement} {flow : Flow} {ops : List Op}
    (h : LowersBlock scope s block flow ops s') :
    Exits (Op.blockVisits ops) scope.Returns flow := by
  induction h with
  | nil s => exact .steps []
  | simple first tail ih => exact Op.exits_append first.straight ih
  | ret last => exact last.exits
  | branchReturns condition reads thenArm elseArm ihThen ihElse =>
    refine Op.exits_append condition.straight ?_
    rw [Op.blockVisits_singleton]
    exact ihThen.either ihElse
  | branch condition reads thenArm elseArm joins tail ihThen ihElse ih =>
    exact Op.exits_append condition.straight ((ihThen.either ihElse).seq ih)
  | loop condition reads inner tail ihInner ih =>
    exact ((Op.exits_straight condition.straight).loop ihInner).seq ih

/-- The returns among operations, at every depth, fit the function. -/
def Scope.Fits (scope : Scope) (ops : List Op) : Prop :=
  ∀ value, .ret value ∈ Op.nestedAll ops → value.isSome = scope.function.returnType.isSome

namespace Scope.Fits

variable {ops rest : List Op}

theorem append (h : scope.Fits ops) (hrest : scope.Fits rest) : scope.Fits (ops ++ rest) := by
  intro value hvalue
  rw [Op.nestedAll_append, List.mem_append] at hvalue
  exact hvalue.elim (h value) (hrest value)

theorem of_straight (h : ∀ op ∈ ops, op.isStraight = true) : scope.Fits ops := by
  intro value hvalue
  rw [Op.nestedAll_straight h] at hvalue
  cases h _ hvalue

theorem branch {cond : Register} {thenOps elseOps : List Op} (hthen : scope.Fits thenOps)
    (helse : scope.Fits elseOps) : scope.Fits [.branch cond thenOps elseOps] := by
  intro value hvalue
  simp only [Op.nestedAll, Op.nested, List.append_nil, List.mem_cons, List.mem_append, reduceCtorEq,
    false_or] at hvalue
  exact hvalue.elim (hthen value) (helse value)

theorem loop {cond : Register} {condOps body : List Op} (hcond : scope.Fits condOps)
    (hbody : scope.Fits body) : scope.Fits [.loop condOps cond body] := by
  intro value hvalue
  simp only [Op.nestedAll, Op.nested, List.append_nil, List.mem_cons, List.mem_append, reduceCtorEq,
    false_or] at hvalue
  exact hvalue.elim (hcond value) (hbody value)

theorem ret {value : Option Register}
    (h : value.isSome = scope.function.returnType.isSome) : scope.Fits [.ret value] := by
  intro other hother
  simp only [Op.nestedAll, Op.nested, List.append_nil, List.mem_singleton, Op.ret.injEq] at hother
  rw [hother, h]

end Scope.Fits

theorem LowersReturn.fits {value : Option Expr} {ops : List Op}
    (h : LowersReturn scope s value ops s') : scope.Fits ops := by
  cases h with
  | value declared value reads =>
    exact (Scope.Fits.of_straight value.straight).append (.ret (by simp [declared]))
  | nothing declared => exact .ret (by simp [declared])

theorem LowersBlock.fits {block : List Statement} {flow : Flow} {ops : List Op}
    (h : LowersBlock scope s block flow ops s') : scope.Fits ops := by
  induction h with
  | nil s => exact .of_straight (by simp)
  | simple first tail ih => exact (Scope.Fits.of_straight first.straight).append ih
  | ret last => exact last.fits
  | branchReturns condition reads thenArm elseArm ihThen ihElse =>
    exact (Scope.Fits.of_straight condition.straight).append (ihThen.branch ihElse)
  | branch condition reads thenArm elseArm joins tail ihThen ihElse ih =>
    rw [← List.singleton_append]
    exact (Scope.Fits.of_straight condition.straight).append ((ihThen.branch ihElse).append ih)
  | loop condition reads inner tail ihInner ih =>
    rw [← List.singleton_append]
    exact ((Scope.Fits.of_straight condition.straight).loop ihInner).append ih

end Derivations

/-! ## Statements -/

namespace Statement

mutual

/-- The paths through a statement, with the statements on them. -/
def visits : Statement → Paths Statement
  | .ret value => .seq (.steps [.ret value]) .stop
  | .branch _ thenBlock elseBlock => .either (blockVisits thenBlock) (blockVisits elseBlock)
  | .loop _ body => .Loop (.steps []) (blockVisits body)
  | statement => .steps [statement]

/-- The paths through a block. -/
def blockVisits : List Statement → Paths Statement
  | [] => .steps []
  | statement :: rest => .seq statement.visits (blockVisits rest)

end

end Statement

section Source

open Paths

variable {scope : Scope} {s s' : Session}

theorem LowersSimple.visits_eq {statement : Statement} {ops : List Op}
    (h : LowersSimple scope s statement ops s') : statement.visits = .steps [statement] := by
  cases h <;> simp [Statement.visits]

/-- Where control continues, some path does. -/
theorem LowersBlock.exists_visit {block : List Statement} {flow : Flow} {ops : List Op}
    (h : LowersBlock scope s block flow ops s') (hflow : flow = .continues) :
    ∃ path, Statement.blockVisits block path .continues := by
  induction h with
  | nil s => exact ⟨[], rfl, rfl⟩
  | simple first tail ih =>
    obtain ⟨path, hpath⟩ := ih hflow
    rw [Statement.blockVisits, first.visits_eq]
    exact ⟨_, seq_of_continues ⟨rfl, rfl⟩ hpath⟩
  | ret last => cases hflow
  | branchReturns => cases hflow
  | @branch s s₁ s₂ s₃ s₄ s' c r thenBlock elseBlock rest thenFlow elseFlow flow condOps thenOps
      elseOps restOps condition reads thenArm elseArm joins tail ihThen ihElse ih =>
    obtain ⟨last, hlast⟩ := ih hflow
    have harm : ∃ path, either (Statement.blockVisits thenBlock) (Statement.blockVisits elseBlock)
        path .continues := by
      cases thenFlow with
      | continues =>
        obtain ⟨path, hpath⟩ := ihThen rfl
        exact ⟨path, .inl hpath⟩
      | returns =>
        cases elseFlow with
        | continues =>
          obtain ⟨path, hpath⟩ := ihElse rfl
          exact ⟨path, .inr hpath⟩
        | returns => cases joins
    obtain ⟨first, hfirst⟩ := harm
    exact ⟨_, seq_of_continues hfirst hlast⟩
  | loop condition reads inner tail ihInner ih =>
    obtain ⟨last, hlast⟩ := ih hflow
    exact ⟨_, seq_of_continues (.leave ⟨rfl, rfl⟩) hlast⟩

/-- Some path ends at a return without a value. -/
def Paths.EndsEmpty (X : Paths Statement) : Prop :=
  ∃ pre, X (pre ++ [.ret none]) .returns

theorem Paths.EndsEmpty.seq_left {X Y : Paths Statement} (h : X.EndsEmpty) :
    (seq X Y).EndsEmpty := by
  obtain ⟨pre, hpath⟩ := h
  exact ⟨pre, .inl ⟨hpath, rfl⟩⟩

theorem StopsAt.endsEmpty {title : String} {statement : Statement}
    (h : StopsAt scope (.missingReturn title) s statement) :
    statement.visits.EndsEmpty ∧ scope.function.returnType.isSome := by
  have hblamed : ∀ {s : Session} {names : List String},
      ¬s.Blames names (.missingReturn title) := fun h => h.notReturn title rfl
  cases h with
  | declare declares value => exact absurd value hblamed
  | assign value => exact absurd value hblamed
  | eval value => exact absurd value hblamed
  | print value => exact absurd value hblamed
  | ret value => exact absurd value hblamed
  | retNothing declared missing =>
    have hpath : Statement.visits (.ret none) ([.ret none] ++ []) .returns :=
      seq_of_continues ⟨rfl, rfl⟩ ⟨rfl, rfl⟩
    exact ⟨⟨[], hpath⟩, declared⟩
  | branch test => exact absurd test hblamed
  | loop test => exact absurd test hblamed
  | other other => cases other

/-- Where lowering stops for a missing return, some path meets a return without a value. -/
theorem StopsBlock.endsEmpty {title : String} {block : List Statement}
    (h : StopsBlock scope (.missingReturn title) s block) :
    (Statement.blockVisits block).EndsEmpty ∧ scope.function.returnType.isSome := by
  induction h with
  | here stops => exact stops.endsEmpty.imp_left .seq_left
  | thenArm condition reads arm ih =>
    obtain ⟨⟨pre, hpath⟩, hdeclared⟩ := ih
    exact ⟨.seq_left ⟨pre, .inl hpath⟩, hdeclared⟩
  | elseArm condition reads thenArm arm ih =>
    obtain ⟨⟨pre, hpath⟩, hdeclared⟩ := ih
    exact ⟨.seq_left ⟨pre, .inr hpath⟩, hdeclared⟩
  | @body s s₁ s₂ c r condOps block rest condition reads inner ih =>
    obtain ⟨⟨pre, hpath⟩, hdeclared⟩ := ih
    have hloop : Statement.visits (.loop c block) ([] ++ (pre ++ [.ret none])) .returns :=
      .stopBody ⟨rfl, rfl⟩ hpath
    exact ⟨.seq_left ⟨pre, hloop⟩, hdeclared⟩
  | later first tail ih =>
    obtain ⟨⟨pre, hpath⟩, hdeclared⟩ := ih
    obtain ⟨before, hbefore⟩ := first.exists_visit rfl
    rw [Statement.blockVisits, Statement.blockVisits, seq_steps_nil] at hbefore
    have hseq := seq_of_continues hbefore hpath
    rw [← List.append_assoc] at hseq
    exact ⟨⟨before ++ pre, hseq⟩, hdeclared⟩

end Source

/-! ## Functions -/

/-- Whether a return is missing is found out exactly. In a lowered function that declares a
return type, every path through the code ends at a return of a register, and in one that
declares none, all returns are without a value. A function that is refused for a missing
return declares a return type, and some path through its body passes the end of the body or
ends at a return without a value. -/
theorem Shared.missingReturn_exact (shared : Shared) (function : SourceFunction) :
    (∀ lowering, shared.lowerFunction function = .ok lowering →
      (function.returnType.isSome → ∀ path flow,
        Op.blockVisits lowering.function.ops path flow →
          flow = .returns ∧ ∃ pre r, path = pre ++ [.ret (some r)])
      ∧ (function.returnType = none → ∀ value,
        .ret value ∈ Op.nestedAll lowering.function.ops → value = none))
    ∧ ∀ title, shared.lowerFunction function = .error (.refused (.missingReturn title)) →
      function.returnType.isSome ∧ ∃ path flow, Statement.blockVisits function.body path flow
        ∧ (flow = .continues ∨ ∃ pre, path = pre ++ [.ret none]) := by
  constructor
  · intro lowering h
    cases lowerFunction_derives h with
    | @intro symbol s s' flow ops named params body returns =>
    refine ⟨fun hdeclared path exit hpath => ?_, fun hnone value hvalue => ?_⟩
    · have hexits := body.exits
      rw [returns hdeclared] at hexits
      cases exit with
      | continues => exact absurd (hexits.continues path hpath) nofun
      | returns =>
        obtain ⟨pre, _, rfl, value, rfl, hvalue⟩ := hexits.returns path hpath
        obtain ⟨r, rfl⟩ := Option.isSome_iff_exists.1 (hvalue.trans hdeclared)
        exact ⟨rfl, pre, r, rfl⟩
    · simpa [hnone] using body.fits value hvalue
  · intro title h
    obtain ⟨s, params, stops | ⟨_, hdeclared, ops, s', body⟩⟩ := lowerFunction_stops h rfl
    · obtain ⟨⟨pre, hpath⟩, hdeclared⟩ := stops.endsEmpty
      exact ⟨hdeclared, _, _, hpath, .inr ⟨pre, rfl⟩⟩
    · obtain ⟨path, hpath⟩ := body.exists_visit rfl
      exact ⟨hdeclared, path, _, hpath, .inl rfl⟩

namespace Sample

/-- Returns from a loop, or behind it. -/
def leaves : SourceFunction where
  path := ""
  moduleName := "m"
  name := "f"
  params := [⟨"n", .u8⟩]
  returnType := some .u8
  body := [.loop (.var "n") [.ret (some (.var "n"))], .ret (some (.literal ⟨1, .u8⟩)), .ret none]

/-- Returns without a value in one arm of a branch behind a loop. -/
def forgets : SourceFunction where
  path := ""
  moduleName := "m"
  name := "f"
  params := [⟨"n", .u8⟩]
  returnType := some .u8
  body :=
    [.loop (.var "n") [.assign "n" (.literal ⟨0, .u8⟩)],
      .branch (.var "n") [.ret (some (.var "n"))] [.ret none]]

end Sample

/-- The first sample is lowered, and one of its paths returns from the loop; the second one is
refused. -/
theorem Shared.missingReturn_exact_samples :
    (∃ (shared : Shared) (lowering : FunctionLowering) (path : List Op),
      shared.lowerFunction Sample.leaves = .ok lowering
      ∧ Op.blockVisits lowering.function.ops path .returns
      ∧ ∃ pre r, path = pre ++ [.ret (some r)])
    ∧ ∃ shared : Shared,
      shared.lowerFunction Sample.forgets = .error (.refused (.missingReturn "m::f"))
      ∧ ∃ path flow, Statement.blockVisits Sample.forgets.body path flow
        ∧ (flow = .continues ∨ ∃ pre, path = pre ++ [.ret none]) := by
  constructor
  · have hops : ((Sample.shared Sample.leaves "m_f$u8").lowerFunction Sample.leaves).map
        (·.function.ops) = .ok [.loop [.loadLocal ⟨2⟩ "n"] ⟨2⟩
          [.loadLocal ⟨3⟩ "n", .ret (some ⟨3⟩)], .loadConst ⟨4⟩ 1, .ret (some ⟨4⟩)] := by
      decide +kernel
    obtain ⟨lowering, h, hcode⟩ := map_eq_ok.1 hops
    have hbody : Op.blockVisits [.loadLocal ⟨3⟩ "n", .ret (some ⟨3⟩)] _ .returns :=
      Paths.seq_of_continues ⟨rfl, rfl⟩ (.inl ⟨Paths.seq_of_continues ⟨rfl, rfl⟩ ⟨rfl, rfl⟩, rfl⟩)
    have hpath : Op.blockVisits [.loop [.loadLocal ⟨2⟩ "n"] ⟨2⟩
        [.loadLocal ⟨3⟩ "n", .ret (some ⟨3⟩)], .loadConst ⟨4⟩ 1, .ret (some ⟨4⟩)] _ .returns :=
      .inl ⟨.stopBody (Paths.seq_of_continues ⟨rfl, rfl⟩ ⟨rfl, rfl⟩) hbody, rfl⟩
    rw [← hcode] at hpath
    exact ⟨_, lowering, _, h, hpath, (((missingReturn_exact _ _).1 lowering h).1 rfl _ _ hpath).2⟩
  · have herror : ((Sample.shared Sample.forgets "m_f$u8").lowerFunction Sample.forgets).map
        (fun _ => ()) = .error (.refused (.missingReturn "m::f")) := by decide +kernel
    have h := map_eq_error.1 herror
    exact ⟨_, h, ((missingReturn_exact _ _).2 _ h).2⟩

end ScalarC
