import ScalarC.Proofs.Assignment
import ScalarC.Proofs.OpEquality
import ScalarC.Proofs.Paths

/-!
# Every read of register code is preceded by a write

Along every control path through the operations of a lowered function, a local that
is not a parameter is stored before it is loaded, and a register is written before it
is read. So the zeros that locals and registers start with are never seen.
-/

namespace ScalarC

/-- What an operation does to a local or a register. -/
inductive Access where
  | load (name : String)
  | store (name : String)
  | read (register : Register)
  | write (register : Register)
deriving DecidableEq, Repr

namespace Op

/-- The accesses of an operation without control flow, in order. -/
def accesses : Op → List Access
  | .loadConst dest _ => [.write dest]
  | .loadLocal dest name => [.load name, .write dest]
  | .copy dest src | .cast dest src => [.read src, .write dest]
  | .storeLocal name src => [.read src, .store name]
  | .binary dest _ lhs rhs => [.read lhs, .read rhs, .write dest]
  | .call dest _ args => args.map .read ++ dest.toList.map .write
  | .print _ (.register source) => [.read source]
  | _ => []

mutual

/-- The paths through an operation. -/
def paths : Op → Paths Access
  | .ret value => .seq (.steps (value.toList.map .read)) .stop
  | .branch cond thenOps elseOps =>
    .seq (.steps [.read cond]) (.either (blockPaths thenOps) (blockPaths elseOps))
  | .loop condOps cond body =>
    .Loop (.seq (blockPaths condOps) (.steps [.read cond])) (blockPaths body)
  | op => .steps op.accesses

/-- The paths through operations that run one after the other. -/
def blockPaths : List Op → Paths Access
  | [] => .steps []
  | op :: rest => .seq op.paths (blockPaths rest)

end

theorem blockPaths_cons {op : Op} {rest : List Op} {first last : List Access} {flow : Flow}
    (hop : op.paths first .continues) (hrest : blockPaths rest last flow) :
    blockPaths (op :: rest) (first ++ last) flow :=
  Paths.seq_of_continues hop hrest

theorem blockPaths_append (ops rest : List Op) :
    blockPaths (ops ++ rest) = .seq (blockPaths ops) (blockPaths rest) := by
  induction ops with
  | nil => simp [blockPaths, Paths.steps_nil_seq]
  | cons op ops ih => simp [blockPaths, ih, Paths.seq_assoc]

end Op

/-- A parameter may be loaded from the start, any other local once it was stored, and a
register may be read once it was written. -/
def Access.Allowed (params : List String) (before : List Access) : Access → Prop
  | load name => name ∈ params ∨ .store name ∈ before
  | read register => .write register ∈ before
  | _ => True

/-- The locals that may be loaded behind a path. -/
def Stored (params : List String) (before : List Access) (name : String) : Prop :=
  name ∈ params ∨ .store name ∈ before

/-- Behind the path, every assigned local may be loaded and the registers may be read. -/
structure Ready (params : List String) (s : Session) (registers : List Register)
    (before : List Access) : Prop where
  covers : s.locals.Covers (Stored params before)
  written : ∀ r ∈ registers, .write r ∈ before

namespace Ready

variable {params : List String} {s s' : Session} {registers registers' : List Register}
  {before path : List Access} {r : Register}

theorem append (h : Ready params s registers before) (path : List Access) :
    Ready params s registers (before ++ path) :=
  ⟨h.covers.mono fun _ hname => hname.imp id (List.mem_append_left path),
    fun r hr => List.mem_append_left path (h.written r hr)⟩

theorem mono (h : Ready params s registers before) (heval : s.Evaluates s')
    (hsub : ∀ r ∈ registers', r ∈ registers) : Ready params s' registers' before :=
  ⟨heval.covers h.covers, fun r hr => h.written r (hsub r hr)⟩

/-- A register was written on the way. -/
theorem append_write (h : Ready params s registers before) (hwrite : .write r ∈ path) :
    Ready params s (r :: registers) (before ++ path) where
  covers := (h.append path).covers
  written r' hr' := by
    rcases List.mem_cons.1 hr' with rfl | hr'
    · exact List.mem_append_right before hwrite
    · exact (h.append path).written r' hr'

end Ready

/-- A call may read arguments that were all written. -/
theorem Op.safeFrom_call {params : List String} {dest : Option Register} {callee : Symbol}
    {args : List Register} {before : List Access} (h : ∀ r ∈ args, .write r ∈ before) :
    Paths.SafeFrom (Access.Allowed params) before (Op.call dest callee args).accesses := by
  induction args generalizing before with
  | nil => cases dest <;> simp [accesses, Paths.SafeFrom, Access.Allowed]
  | cons r args ih =>
    obtain ⟨hfirst, hrest⟩ := List.forall_mem_cons.1 h
    exact ⟨hfirst, ih fun r' hr' => List.mem_append_left _ (hrest r' hr')⟩

section Triples

open Paths

variable {params : List String} {scope : Scope} {s s' : Session}

/-- An operation without control flow, then the others. -/
theorem Op.triple_cons {op : Op} {rest : List Op} {P Q R : List Access → Prop}
    (hpaths : op.paths = .steps op.accesses)
    (hop : ∀ before, P before →
      SafeFrom (Access.Allowed params) before op.accesses ∧ R (before ++ op.accesses))
    (hrest : Triple (Access.Allowed params) R (Op.blockPaths rest) Q) :
    Triple (Access.Allowed params) P (Op.blockPaths (op :: rest)) Q := by
  rw [blockPaths, hpaths]
  exact .seq (.steps hop) hrest

/-- An operation that writes the register that was just handed out, then the others. -/
theorem Op.triple_define (operands : List Register) {s₁ : Session} {ty : Scalar} {op : Op}
    {rest : List Op} {known registers : List Register} (hpaths : op.paths = .steps op.accesses)
    (hwrite : .write s₁.next ∈ op.accesses) (heval : s.Evaluates s₁)
    (hsafe : ∀ before, Ready params s (operands ++ known) before →
      SafeFrom (Access.Allowed params) before op.accesses)
    (hrest : ∀ known, Triple (Access.Allowed params) (Ready params (s₁.defined ty) known)
      (Op.blockPaths rest) (Ready params s' (registers ++ known))) :
    Triple (Access.Allowed params) (Ready params s (operands ++ known))
      (Op.blockPaths (op :: rest)) (Ready params s' (s₁.next :: registers ++ known)) := by
  refine Op.triple_cons hpaths (fun before hready => ⟨hsafe before hready, ?_⟩)
    ((hrest (s₁.next :: known)).conseq (fun _ => id) fun b hb => ?_)
  · refine (hready.append_write hwrite).mono (heval.trans (s₁.evaluates_defined ty)) fun r hr => ?_
    rcases List.mem_cons.1 hr with rfl | hr
    · exact List.mem_cons_self
    · exact List.mem_cons_of_mem _ (List.mem_append_right _ hr)
  · refine hb.mono (.refl s') fun r hr => ?_
    simp only [List.cons_append, List.mem_cons, List.mem_append] at hr ⊢
    exact or_left_comm.1 hr

/-- Copying arguments reads the arguments and writes their copies. -/
theorem BindsArgs.triple {sources bound : List Register} {types : List Scalar}
    {copies : List Op} (h : BindsArgs s sources types bound copies s')
    (known : List Register) :
    Triple (Access.Allowed params) (Ready params s (sources ++ known)) (Op.blockPaths copies)
      (Ready params s' (bound ++ known)) := by
  induction h generalizing known with
  | nil s => exact .steps fun before hready => ⟨trivial, by simpa using hready⟩
  | @cons s s₁ s₂ s' src ty sources bound types copies readSource readCopy tail ih =>
    have heval := (Lower.markRead_evaluates readSource).trans ((s₁.evaluates_defined ty).trans
      (Lower.markRead_evaluates readCopy))
    refine Op.triple_cons rfl (fun before hready => ⟨?_, ?_⟩)
      ((ih (s₁.next :: known)).conseq (fun _ => id) fun b hb => ?_)
    · exact ⟨hready.written src (by simp), trivial, trivial⟩
    · refine (hready.append_write (r := s₁.next) (by simp [Op.accesses])).mono heval fun r hr => ?_
      simp only [List.cons_append, List.mem_cons, List.mem_append] at hr ⊢
      exact (or_left_comm.1 hr).imp id .inr
    · refine hb.mono (.refl s') fun r hr => ?_
      simp only [List.cons_append, List.mem_cons, List.mem_append] at hr ⊢
      exact or_left_comm.1 hr

/-- Evaluating expressions reads what was written before, and writes the registers of
the expressions. -/
theorem LowersExprs.triple {es : List Expr} {registers : List Register} {ops : List Op}
    (h : LowersExprs scope s es registers ops s') (known : List Register) :
    Triple (Access.Allowed params) (Ready params s known) (Op.blockPaths ops)
      (Ready params s' (registers ++ known)) := by
  induction h generalizing known with
  | nil s => exact .steps fun before hready => ⟨trivial, by simpa using hready⟩
  | literal value tail ih =>
    exact Op.triple_define [] rfl (by simp [Op.accesses])
      (Scope.literalValue_evaluates value) (fun before _ => ⟨trivial, trivial⟩) ih
  | constant found value tail ih =>
    exact Op.triple_define [] rfl (by simp [Op.accesses])
      (Scope.literalValue_evaluates value) (fun before _ => ⟨trivial, trivial⟩) ih
  | var read tail ih =>
    exact Op.triple_define [] rfl (by simp [Op.accesses])
      (Lower.readLocal_evaluates read)
      (fun before hready => ⟨Lower.readLocal_covers hready.covers read, trivial, trivial⟩) ih
  | binary operands readLeft readRight result tail ihOperands ih =>
    rw [Op.blockPaths_append]
    refine (ihOperands known).seq (Op.triple_define _ rfl (by simp [Op.accesses])
      ((Lower.markRead_evaluates readLeft).trans (Lower.markRead_evaluates readRight))
      (fun before hready => ?_) ih)
    exact ⟨hready.written _ (by simp), List.mem_append_left _ (hready.written _ (by simp)),
      trivial, trivial⟩
  | cast operand readSource tail ihOperand ih =>
    rw [Op.blockPaths_append]
    refine (ihOperand known).seq (Op.triple_define _ rfl (by simp [Op.accesses])
      (Lower.markRead_evaluates readSource) (fun before hready => ?_) ih)
    exact ⟨hready.written _ (by simp), trivial, trivial⟩
  | call target arity arguments binding returns tail ihArguments ih =>
    rw [Op.blockPaths_append, Op.blockPaths_append]
    refine (((ihArguments known).conseq (fun b hb => hb.mono (Scope.lowerCallee_evaluates target)
      fun _ => id) fun _ => id).seq (binding.triple known)).seq (Op.triple_define _ rfl
      (by simp [Op.accesses]) (.refl _) (fun before hready => ?_) ih)
    exact Op.safeFrom_call fun r hr => hready.written r (List.mem_append_left _ hr)

/-- One expression leaves its register written. -/
theorem LowersExprs.triple_one {e : Expr} {r : Register} {ops : List Op}
    (h : LowersExprs scope s [e] [r] ops s') :
    Triple (Access.Allowed params) (Ready params s []) (Op.blockPaths ops)
      (Ready params s' [r]) :=
  h.triple []

/-- Nothing is left to happen. -/
theorem Op.triple_nil {P Q : List Access → Prop} (h : ∀ before, P before → Q before) :
    Triple (Access.Allowed params) P (Op.blockPaths []) Q :=
  .steps fun before hbefore => ⟨trivial, by simpa using h before hbefore⟩

/-- Storing a register behind an expression makes the local one that may be loaded. -/
theorem Op.triple_store {s₁ s₂ : Session} {name : String} {r : Register} {ops : List Op}
    (hvalue : Triple (Access.Allowed params) (Ready params s []) (Op.blockPaths ops)
      (Ready params s₁ [r]))
    (assigns : Lower.assignLocal name s₁ = .ok ((), s₂))
    (reads : Lower.markRead r s₂ = .ok ((), s')) :
    Triple (Access.Allowed params) (Ready params s []) (Op.blockPaths (ops ++ [.storeLocal name r]))
      (Ready params s' []) := by
  rw [Op.blockPaths_append]
  refine hvalue.seq (Op.triple_cons rfl (fun before hready => ⟨?_, ?_⟩) (Op.triple_nil fun _ => id))
  · exact ⟨hready.written r (by simp), trivial, trivial⟩
  · refine ⟨(Lower.markRead_evaluates reads).covers ((Lower.assignLocal_covers
      (hready.append (Op.storeLocal name r).accesses).covers assigns).mono ?_), nofun⟩
    rintro other (rfl | hother)
    · exact .inr (by simp [Op.accesses])
    · exact hother

/-- An operation that reads the register of an expression and does nothing else. -/
theorem Op.triple_read {s₁ : Session} {op : Op} {r : Register} {ops : List Op}
    (hpaths : op.paths = .steps op.accesses) (haccesses : op.accesses = [.read r])
    (hvalue : Triple (Access.Allowed params) (Ready params s []) (Op.blockPaths ops)
      (Ready params s₁ [r]))
    (heval : s₁.Evaluates s') :
    Triple (Access.Allowed params) (Ready params s []) (Op.blockPaths (ops ++ [op]))
      (Ready params s' []) := by
  rw [Op.blockPaths_append]
  refine hvalue.seq (Op.triple_cons hpaths (fun before hready => ⟨?_, ?_⟩)
    (Op.triple_nil fun _ => id))
  · rw [haccesses]
    exact ⟨hready.written r (by simp), trivial⟩
  · exact (hready.append _).mono heval nofun

/-- A statement without control flow. -/
theorem LowersSimple.triple {statement : Statement} {ops : List Op}
    (h : LowersSimple scope s statement ops s') :
    Triple (Access.Allowed params) (Ready params s []) (Op.blockPaths ops)
      (Ready params s' []) := by
  cases h with
  | @declare s₁ name ty declares =>
    refine Op.triple_nil fun before hready => ⟨?_, nofun⟩
    exact (s₁.evaluates_reserved ty).covers
      ((Lower.declareLocal_covers hready.covers declares).mono fun _ => And.right)
  | @declareInit s₁ s₂ s₃ _ name ty e r ops declares value assigns reads =>
    refine Op.triple_store (value.triple_one.conseq (fun before hready => ⟨?_, nofun⟩)
      fun _ => id) assigns reads
    exact (s₁.evaluates_reserved ty).covers
      ((Lower.declareLocal_covers hready.covers declares).mono fun _ => And.right)
  | assign known value assigns reads => exact Op.triple_store value.triple_one assigns reads
  | eval noCall value =>
    exact value.triple_one.conseq (fun _ => id) fun _ hready => hready.mono (.refl s') (by simp)
  | @evalCall s₁ s₂ s₃ _ callee args symbol signature sources bound argOps copies target arity
      arguments binding dropped =>
    have hargs := (arguments.triple []).conseq (fun b (hb : Ready params s [] b) =>
      hb.mono (Scope.lowerCallee_evaluates target) fun _ => id) fun _ => id
    rw [Op.blockPaths_append, Op.blockPaths_append]
    refine (hargs.seq (binding.triple [])).seq (Op.triple_cons rfl
      (fun before hready => ⟨?_, ?_⟩) (Op.triple_nil fun _ => id))
    · exact Op.safeFrom_call fun r hr => hready.written r (List.mem_append_left _ hr)
    · exact (hready.append _).mono (Scope.resultRegister_evaluates dropped) nofun
  | printValue value typed printer reads =>
    exact Op.triple_read rfl rfl value.triple_one (Lower.markRead_evaluates reads)
  | printChar value reads =>
    exact Op.triple_read rfl rfl value.triple_one (Lower.markRead_evaluates reads)
  | printNewline =>
    exact Op.triple_cons rfl (fun before hready => ⟨trivial, hready.append _⟩)
      (Op.triple_nil fun _ => id)
  | printText short =>
    exact Op.triple_cons rfl (fun before hready => ⟨trivial, (hready.append _).covers, nofun⟩)
      (Op.triple_nil fun _ => id)

/-- Control does not pass a return. -/
theorem LowersReturn.triple {value : Option Expr} {ops : List Op}
    (h : LowersReturn scope s value ops s') :
    Triple (Access.Allowed params) (Ready params s []) (Op.blockPaths ops) fun _ => False := by
  cases h with
  | @value s₁ _ ty e r ops declared value reads =>
    rw [Op.blockPaths_append]
    refine value.triple_one.seq (.seq (.seq (.steps fun before hready => ⟨?_, hready.append _⟩)
      .stop) (R := fun _ => False) (Op.triple_nil fun _ => id))
    exact ⟨hready.written r (by simp), trivial⟩
  | nothing declared =>
    exact .seq (.seq (.steps fun before hready => ⟨trivial, hready.append _⟩) .stop)
      (Op.triple_nil fun _ => id)

/-- The condition of a branch or a loop is written when it is tested. -/
theorem LowersExprs.triple_test {s₁ : Session} {c : Expr} {r : Register} {condOps : List Op}
    (condition : LowersExprs scope s [c] [r] condOps s₁)
    (reads : Lower.markRead r s₁ = .ok ((), s')) :
    Triple (Access.Allowed params) (Ready params s [])
      (.seq (Op.blockPaths condOps) (.steps [.read r])) (Ready params s' []) := by
  refine condition.triple_one.seq (.steps fun before hready => ⟨?_, ?_⟩)
  · exact ⟨hready.written r (by simp), trivial⟩
  · exact (hready.append _).mono (Lower.markRead_evaluates reads) nofun

/-- A branch, and what follows it. -/
theorem LowersExprs.triple_branch {s₁ s₂ : Session} {c : Expr} {r : Register}
    {condOps thenOps elseOps restOps : List Op} {Q R : List Access → Prop}
    (condition : LowersExprs scope s [c] [r] condOps s₁)
    (reads : Lower.markRead r s₁ = .ok ((), s₂))
    (hthen : Triple (Access.Allowed params) (Ready params s₂ []) (Op.blockPaths thenOps) R)
    (helse : Triple (Access.Allowed params) (Ready params s₂ []) (Op.blockPaths elseOps) R)
    (hrest : Triple (Access.Allowed params) R (Op.blockPaths restOps) Q) :
    Triple (Access.Allowed params) (Ready params s [])
      (Op.blockPaths (condOps ++ .branch r thenOps elseOps :: restOps)) Q := by
  rw [Op.blockPaths_append, Op.blockPaths, Op.paths, Paths.seq_assoc, ← Paths.seq_assoc]
  exact (condition.triple_test reads).seq ((hthen.either helse).seq hrest)

/-- Along the operations of a block, reads are allowed, and behind them the locals that
lowering takes as assigned were stored. -/
theorem LowersBlock.triple {block : List Statement} {flow : Flow} {ops : List Op}
    (h : LowersBlock scope s block flow ops s') :
    Triple (Access.Allowed params) (Ready params s []) (Op.blockPaths ops)
      fun b => flow = .continues ∧ Ready params s' [] b := by
  induction h with
  | nil s => exact Op.triple_nil fun _ hready => ⟨rfl, hready⟩
  | simple first tail ih =>
    rw [Op.blockPaths_append]
    exact first.triple.seq ih
  | ret last => exact last.triple.conseq (fun _ => id) nofun
  | @branchReturns s s₁ s₂ s₃ s₄ c r thenBlock elseBlock rest condOps thenOps elseOps condition
      reads thenArm elseArm ihThen ihElse =>
    refine condition.triple_branch (R := fun _ => False) reads
      (ihThen.conseq (fun _ => id) fun b hb => nomatch hb.1)
      (ihElse.conseq (fun b hready => ⟨?_, nofun⟩) fun b hb => nomatch hb.1)
      (Op.triple_nil nofun)
    exact hready.covers.of_subset thenArm.extends.declared fun _ => id
  | @branch s s₁ s₂ s₃ s₄ s' c r thenBlock elseBlock rest thenFlow elseFlow flow condOps thenOps
      elseOps restOps condition reads thenArm elseArm joins tail ihThen ihElse ih =>
    refine condition.triple_branch reads (ihThen.conseq (fun _ => id) ?_)
      (ihElse.conseq (fun b hready => ⟨?_, nofun⟩) ?_) ih
    · rintro b ⟨rfl, hready⟩
      exact ⟨hready.covers.of_subset ((s₃.extends_restored s₂.locals.assigned).trans
        elseArm.extends).declared fun _ => Flow.mem_joinAssigned_then, nofun⟩
    · exact hready.covers.of_subset thenArm.extends.declared fun _ => id
    · rintro b ⟨rfl, hready⟩
      exact ⟨hready.covers.of_subset List.prefix_rfl fun _ => Flow.mem_joinAssigned_else, nofun⟩
  | @loop s s₁ s₂ s₃ s' c r body rest bodyFlow flow condOps bodyOps restOps condition reads inner
      tail ihInner ih =>
    -- what was stored before the loop stays stored, so it is ready for every pass
    have hkept : ∀ before path, Ready params s [] before → Ready params s [] (before ++ path) :=
      fun _ path hready => hready.append path
    have htest := ((condition.triple_test reads).frame hkept).conseq (fun _ hb => ⟨hb, hb⟩)
      fun _ => id
    have hpass := (ihInner.frame hkept).conseq (fun _ => id) fun _ => And.right
    rw [Op.blockPaths, Op.paths]
    refine (htest.loop hpass).seq (ih.conseq (fun b hb => ⟨?_, nofun⟩) fun _ => id)
    exact hb.2.covers.of_subset ((condition.evaluates.trans
      (Lower.markRead_evaluates reads)).extends.trans inner.extends).declared fun _ => id

end Triples

/-- No read sees a zero that nothing stored. On every control path through a lowered
function, a load of a local that is not a parameter comes after a store to it, and a
read of a register comes after a write of it. -/
theorem Shared.reads_follow_writes {shared : Shared} {function : SourceFunction}
    {lowering : FunctionLowering} (h : shared.lowerFunction function = .ok lowering)
    {path pre post : List Access} {flow : Flow} {access : Access}
    (hpath : Op.blockPaths lowering.function.ops path flow)
    (hsplit : path = pre ++ access :: post) :
    (∀ name, access = .load name → name ∉ function.params.map (·.name) → .store name ∈ pre)
      ∧ ∀ r, access = .read r → .write r ∈ pre := by
  cases lowerFunction_derives h with
  | @intro symbol s final flow ops named params body returns =>
  have hready : Ready (function.params.map (·.name)) s [] [] :=
    ⟨params.covers nofun fun param hparam => .inl (List.mem_map_of_mem hparam), nofun⟩
  have hallowed := (body.triple [] path _ hready hpath).1.ok_of_eq hsplit
  refine ⟨?_, ?_⟩
  · rintro name rfl hname
    exact hallowed.resolve_left hname
  · rintro r rfl
    exact hallowed

/-- Copies its parameter into a local and sets that to zero in a loop. -/
def Sample.countDown : SourceFunction where
  path := ""
  moduleName := "m"
  name := "f"
  params := [⟨"n", .u8⟩]
  body :=
    [.declare "x" .u8 (some (.var "n")),
      .loop (.var "x") [.assign "x" (.literal ⟨0, .u8⟩)],
      .print (.value (.var "x"))]

/-- One pass through the loop of a sample, up to the load behind the loop. -/
theorem Shared.reads_follow_writes_countDown :
    ∃ (shared : Shared) (lowering : FunctionLowering) (path pre post : List Access),
      shared.lowerFunction Sample.countDown = .ok lowering
      ∧ Op.blockPaths lowering.function.ops path .continues
      ∧ path = pre ++ .load "x" :: post ∧ .store "x" ∈ pre := by
  let shared := Sample.shared Sample.countDown "m_f$u8"
  have hops : (shared.lowerFunction Sample.countDown).toOption.map (·.function.ops)
      = some [.loadLocal ⟨3⟩ "n", .storeLocal "x" ⟨3⟩,
        .loop [.loadLocal ⟨4⟩ "x"] ⟨4⟩ [.loadConst ⟨5⟩ 0, .storeLocal "x" ⟨5⟩],
        .loadLocal ⟨6⟩ "x", .print .u8 (.register ⟨6⟩)] := by
    decide +kernel
  cases h : shared.lowerFunction Sample.countDown with
  | error cause => simp [h, Except.toOption] at hops
  | ok lowering =>
    simp only [h, Except.toOption, Option.map_some, Option.some.injEq] at hops
    have htest : Op.blockPaths [.loadLocal ⟨4⟩ "x"] _ .continues :=
      Op.blockPaths_cons ⟨rfl, rfl⟩ ⟨rfl, rfl⟩
    have hbody : Op.blockPaths [.loadConst ⟨5⟩ 0, .storeLocal "x" ⟨5⟩] _ .continues :=
      Op.blockPaths_cons ⟨rfl, rfl⟩ (Op.blockPaths_cons ⟨rfl, rfl⟩ ⟨rfl, rfl⟩)
    have htested := Paths.seq_of_continues (Y := .steps [.read ⟨4⟩]) htest ⟨rfl, rfl⟩
    have hafter : Op.blockPaths [.loadLocal ⟨6⟩ "x", .print .u8 (.register ⟨6⟩)] _ .continues :=
      Op.blockPaths_cons ⟨rfl, rfl⟩ (Op.blockPaths_cons ⟨rfl, rfl⟩ ⟨rfl, rfl⟩)
    have hpath : Op.blockPaths lowering.function.ops
        ([.load "n", .write ⟨3⟩, .read ⟨3⟩, .store "x", .load "x", .write ⟨4⟩, .read ⟨4⟩,
          .write ⟨5⟩, .read ⟨5⟩, .store "x", .load "x", .write ⟨4⟩, .read ⟨4⟩]
          ++ .load "x" :: [.write ⟨6⟩, .read ⟨6⟩]) .continues := by
      have hloop : Op.paths (.loop [.loadLocal ⟨4⟩ "x"] ⟨4⟩
          [.loadConst ⟨5⟩ 0, .storeLocal "x" ⟨5⟩]) _ .continues :=
        .again htested hbody (.leave htested)
      have hload : Op.paths (.loadLocal ⟨3⟩ "n") _ .continues := ⟨rfl, rfl⟩
      have hstore : Op.paths (.storeLocal "x" ⟨3⟩) _ .continues := ⟨rfl, rfl⟩
      have hall :=
        Op.blockPaths_cons hload (Op.blockPaths_cons hstore (Op.blockPaths_cons hloop hafter))
      rw [hops]
      exact hall
    exact ⟨shared, lowering, _, _, _, h, hpath, rfl,
      (reads_follow_writes h hpath rfl).1 "x" rfl (by decide)⟩

end ScalarC
