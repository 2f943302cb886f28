import Mathlib.Data.List.Induction
import ScalarC.Proofs.Assignment
import ScalarC.Proofs.Paths

/-!
# Locals along the paths of the source

A local that is declared again is unassigned again, so a read should find an
assignment that is later than the latest declaration of its name. Lowering sees to
that except behind the back edge of a loop: where a pass declares a local again and
leaves it unassigned, the local still counts as assigned in the next pass and behind
the loop.

## Main definitions

* `SourceFunction.paths`: the control paths of a function, with the declarations,
  assignments and reads of locals and the back edges of loops.
* `AssignedSince`: the local was assigned later than it was declared.
* `Stale`: the local was declared again, not assigned since, and a back edge followed.
-/

namespace ScalarC

/-- What happens to locals along a path of the source. -/
inductive LocalEvent where
  | declare (name : String)
  | assign (name : String)
  | read (name : String)
  /-- A pass through a loop ends, and the condition is tested again. -/
  | back
deriving DecidableEq, Repr

namespace Expr

mutual

/-- The locals that an expression reads, in order of evaluation. -/
def reads : Expr → List String
  | .literal _ | .constant _ => []
  | .var name => [name]
  | .binary _ lhs rhs => lhs.reads ++ rhs.reads
  | .cast value _ => value.reads
  | .call _ args => readsAll args

def readsAll : List Expr → List String
  | [] => []
  | e :: rest => e.reads ++ readsAll rest

end

end Expr

def Print.reads : Print → List String
  | .value e | .char e => e.reads
  | .newline | .text _ => []

namespace Statement

mutual

/-- The paths through a statement. -/
def paths : Statement → Paths LocalEvent
  | .declare name _ none => .steps [.declare name]
  | .declare name _ (some e) => .steps (.declare name :: e.reads.map .read ++ [.assign name])
  | .assign name e => .steps (e.reads.map .read ++ [.assign name])
  | .eval e => .steps (e.reads.map .read)
  | .print what => .steps (what.reads.map .read)
  | .ret none => .stop
  | .ret (some e) => .seq (.steps (e.reads.map .read)) .stop
  | .branch condition thenBlock elseBlock =>
    .seq (.steps (condition.reads.map .read))
      (.either (blockPaths thenBlock) (blockPaths elseBlock))
  | .loop condition body =>
    .Loop (.steps (condition.reads.map .read)) (.seq (blockPaths body) (.steps [.back]))

/-- The paths through a block. -/
def blockPaths : List Statement → Paths LocalEvent
  | [] => .steps []
  | statement :: rest => .seq statement.paths (blockPaths rest)

end

end Statement

/-- The paths of a function; its parameters are assigned at the start. -/
def SourceFunction.paths (function : SourceFunction) : Paths LocalEvent :=
  .seq (.steps (function.params.map fun param => .assign param.name))
    (Statement.blockPaths function.body)

/-- The local was assigned, and not declared since. -/
def AssignedSince (before : List LocalEvent) (name : String) : Prop :=
  ∃ first last, before = first ++ .assign name :: last ∧ .declare name ∉ last

/-- An assigned local was declared again, and not assigned since. -/
def Redeclared (before : List LocalEvent) (name : String) (last : List LocalEvent) : Prop :=
  ∃ first, before = first ++ .declare name :: last ∧ .assign name ∈ first
    ∧ .declare name ∉ last ∧ .assign name ∉ last

/-- An assigned local was declared again, and a pass through a loop ended without
assigning it. -/
def Stale (before : List LocalEvent) (name : String) : Prop :=
  ∃ last, Redeclared before name last ∧ .back ∈ last

section Events

variable {before path last : List LocalEvent} {name : String} {event : LocalEvent}

theorem AssignedSince.append (h : AssignedSince before name) (hpath : .declare name ∉ path) :
    AssignedSince (before ++ path) name := by
  obtain ⟨first, last, rfl, hlast⟩ := h
  exact ⟨first, last ++ path, by simp, by simp [hlast, hpath]⟩

theorem assignedSince_assign (before : List LocalEvent) (name : String) :
    AssignedSince (before ++ [.assign name]) name :=
  ⟨before, [], rfl, by simp⟩

theorem assignedSince_of_mem (hassign : .assign name ∈ before) (hdeclare : .declare name ∉ before) :
    AssignedSince before name := by
  obtain ⟨first, last, rfl⟩ := List.append_of_mem hassign
  exact ⟨first, last, rfl, by simp_all⟩

theorem Redeclared.append (h : Redeclared before name last) (hdeclare : .declare name ∉ path)
    (hassign : .assign name ∉ path) : Redeclared (before ++ path) name (last ++ path) := by
  obtain ⟨first, rfl, hfirst, hlast, hlast'⟩ := h
  exact ⟨first, by simp, hfirst, by simp [hlast, hdeclare], by simp [hlast', hassign]⟩

/-- A local that was assigned at all is assigned still, or declared again since. -/
theorem assignedSince_or_redeclared (h : .assign name ∈ before) :
    AssignedSince before name ∨ ∃ last, Redeclared before name last := by
  induction before using List.reverseRecOn with
  | nil => simp at h
  | append_singleton before event ih =>
    by_cases hassign : event = .assign name
    · subst hassign
      exact .inl (assignedSince_assign before name)
    · have hbefore : .assign name ∈ before := by
        simpa [Ne.symm hassign] using h
      by_cases hdeclare : event = .declare name
      · subst hdeclare
        exact .inr ⟨[], before, rfl, hbefore, by simp, by simp⟩
      · have hother : .declare name ∉ [event] := by simpa using Ne.symm hdeclare
        rcases ih hbefore with hsince | ⟨last, hagain⟩
        · exact .inl (hsince.append hother)
        · exact .inr ⟨last ++ [event], hagain.append hother (by simpa using Ne.symm hassign)⟩

/-- A local that was declared again is not assigned. -/
theorem Redeclared.not_assignedSince (h : Redeclared before name last) :
    ¬AssignedSince before name := by
  rintro ⟨first', last', heq, hlast'⟩
  obtain ⟨first, rfl, _, _, hassign⟩ := h
  rcases List.append_eq_append_iff.1 heq with ⟨middle, _, hmiddle⟩ | ⟨middle, _, hmiddle⟩
  · cases middle with
    | nil => simp at hmiddle
    | cons event middle => simp_all
  · cases middle with
    | nil => simp at hmiddle
    | cons event middle => simp_all

/-- What lowering grants where it lets a local be read. -/
def Readable (before : List LocalEvent) (name : String) : Prop :=
  AssignedSince before name ∨ Stale before name

theorem Readable.append (h : Readable before name) (hpath : .declare name ∉ path) :
    Readable (before ++ path) name := by
  rcases h with hsince | ⟨last, hagain, hback⟩
  · exact .inl (hsince.append hpath)
  · by_cases hassign : .assign name ∈ path
    · obtain ⟨first, rest, rfl⟩ := List.append_of_mem hassign
      exact .inl ⟨before ++ first, rest, by simp, by simp_all⟩
    · exact .inr ⟨last ++ path, hagain.append hpath hassign, by simp [hback]⟩

/-- A local that is readable was assigned at some point. -/
theorem Readable.assigned (h : Readable before name) : .assign name ∈ before := by
  rcases h with ⟨first, last, rfl, _⟩ | ⟨last, ⟨first, rfl, hassign, _⟩, _⟩ <;> simp_all

/-- The back edge of a loop makes every local readable that was assigned at all. -/
theorem readable_back (h : .assign name ∈ before) : Readable (before ++ [.back]) name := by
  rcases assignedSince_or_redeclared h with hsince | ⟨last, hagain⟩
  · exact .inl (hsince.append (by simp))
  · exact .inr ⟨last ++ [.back], hagain.append (by simp) (by simp), by simp⟩

/-- Reads are of readable locals. -/
def LocalEvent.Granted (before : List LocalEvent) : LocalEvent → Prop
  | read name => Readable before name
  | _ => True

end Events

section Triples

open Paths

variable {scope : Scope} {s s' : Session}

/-- The locals that expressions read are assigned where their lowering starts. -/
theorem LowersExprs.reads_covered {es : List Expr} {registers : List Register} {ops : List Op}
    (h : LowersExprs scope s es registers ops s') {P : String → Prop}
    (hcovers : s.locals.Covers P) : ∀ name ∈ Expr.readsAll es, P name := by
  induction h with
  | nil s => simp [Expr.readsAll]
  | literal value tail ih =>
    simpa [Expr.readsAll, Expr.reads] using ih (((Scope.literalValue_evaluates value).trans
      (Session.evaluates_defined _ _)).covers hcovers)
  | constant found value tail ih =>
    simpa [Expr.readsAll, Expr.reads] using ih (((Scope.literalValue_evaluates value).trans
      (Session.evaluates_defined _ _)).covers hcovers)
  | var read tail ih =>
    have hrest := ih (((Lower.readLocal_evaluates read).trans
      (Session.evaluates_defined _ _)).covers hcovers)
    simpa [Expr.readsAll, Expr.reads] using ⟨Lower.readLocal_covers hcovers read, hrest⟩
  | binary operands readLeft readRight result tail ihOperands ih =>
    have hrest := ih ((operands.evaluates.trans ((Lower.markRead_evaluates readLeft).trans
      ((Lower.markRead_evaluates readRight).trans (Session.evaluates_defined _ _)))).covers hcovers)
    have hoperands := ihOperands hcovers
    simp only [Expr.readsAll, Expr.reads, List.append_nil, List.mem_append] at hoperands ⊢
    grind
  | cast operand readSource tail ihOperand ih =>
    have hrest := ih ((operand.evaluates.trans ((Lower.markRead_evaluates readSource).trans
      (Session.evaluates_defined _ _))).covers hcovers)
    have hoperand := ihOperand hcovers
    simp only [Expr.readsAll, Expr.reads, List.append_nil, List.mem_append] at hoperand ⊢
    grind
  | call target arity arguments binding returns tail ihArguments ih =>
    have found := Scope.lowerCallee_evaluates target
    have hrest := ih ((found.trans (arguments.evaluates.trans (binding.evaluates.trans
      (Session.evaluates_defined _ _)))).covers hcovers)
    have harguments := ihArguments (found.covers hcovers)
    simp only [Expr.readsAll, Expr.reads, List.mem_append]
    grind

/-- Behind the path, every assigned local is readable. -/
def Session.Readables (s : Session) (before : List LocalEvent) : Prop :=
  s.locals.Covers (Readable before)

/-- On the path, every assigned local was assigned at some point. -/
def Session.OnceAssigned (s : Session) (before : List LocalEvent) : Prop :=
  s.locals.Covers fun name => LocalEvent.assign name ∈ before

/-- Nothing is declared on the way, so what was readable still is. -/
theorem Session.Readables.append {before : List LocalEvent} (h : s.Readables before)
    (path : List LocalEvent) (hpath : ∀ name, .declare name ∉ path) :
    s.Readables (before ++ path) :=
  h.mono fun name hname => hname.append (hpath name)

theorem declare_not_mem_reads (name : String) (names : List String) :
    .declare name ∉ names.map LocalEvent.read := by
  simp

/-- Readable locals may be read one after the other. -/
theorem safeFrom_reads {before : List LocalEvent} {names : List String}
    (h : ∀ name ∈ names, Readable before name) :
    SafeFrom LocalEvent.Granted before (names.map .read) := by
  induction names generalizing before with
  | nil => trivial
  | cons name names ih =>
    obtain ⟨hfirst, hrest⟩ := List.forall_mem_cons.1 h
    exact ⟨hfirst, ih fun other hother => (hrest other hother).append (by simp)⟩

/-- The reads of one expression. -/
theorem LowersExprs.safe_reads {e : Expr} {r : Register} {ops : List Op}
    (h : LowersExprs scope s [e] [r] ops s') {before : List LocalEvent}
    (hreadables : s.Readables before) :
    SafeFrom LocalEvent.Granted before (e.reads.map .read) := by
  refine safeFrom_reads ?_
  simpa [Expr.readsAll] using h.reads_covered hreadables

/-- Evaluating an expression keeps what is readable. -/
theorem LowersExprs.triple_reads {e : Expr} {r : Register} {ops : List Op}
    (h : LowersExprs scope s [e] [r] ops s') :
    Triple LocalEvent.Granted s.Readables (.steps (e.reads.map .read)) s'.Readables := by
  refine .steps fun before hreadables => ⟨h.safe_reads hreadables, ?_⟩
  exact h.evaluates.covers (hreadables.append _ fun name => declare_not_mem_reads name e.reads)

/-- An assignment makes its local readable. -/
theorem Lower.triple_assign {s₁ : Session} {name : String} {r : Register}
    (assigns : assignLocal name s = .ok ((), s₁)) (reads : markRead r s₁ = .ok ((), s')) :
    Triple LocalEvent.Granted s.Readables (.steps [.assign name]) s'.Readables := by
  refine .steps fun before hreadables => ⟨⟨trivial, trivial⟩, ?_⟩
  refine (markRead_evaluates reads).covers ((assignLocal_covers
    (hreadables.append [.assign name] (by simp)) assigns).mono ?_)
  rintro other (rfl | hother)
  · exact .inl (assignedSince_assign before other)
  · exact hother

/-- A declaration leaves the other locals readable. -/
theorem Lower.triple_declare {name : String} {ty : Scalar}
    (declares : declareLocal name ty s = .ok ((), s')) :
    Triple LocalEvent.Granted s.Readables (.steps [.declare name])
      (s'.reserved ty).Readables := by
  refine .steps fun before hreadables => ⟨⟨trivial, trivial⟩, ?_⟩
  refine (s'.evaluates_reserved ty).covers ((declareLocal_covers hreadables declares).mono
    fun other hother => hother.2.append ?_)
  simpa using hother.1

/-- A statement without control flow. -/
theorem LowersSimple.triple_reads {statement : Statement} {ops : List Op}
    (h : LowersSimple scope s statement ops s') :
    Triple LocalEvent.Granted s.Readables statement.paths s'.Readables := by
  cases h with
  | declare declares => exact Lower.triple_declare declares
  | declareInit declares value assigns reads =>
    rw [Statement.paths, List.cons_append, ← List.singleton_append, steps_append, steps_append]
    exact (Lower.triple_declare declares).seq
      (value.triple_reads.seq (Lower.triple_assign assigns reads))
  | assign known value assigns reads =>
    rw [Statement.paths, steps_append]
    exact value.triple_reads.seq (Lower.triple_assign assigns reads)
  | eval noCall value => exact value.triple_reads
  | @evalCall s₁ s₂ s₃ _ callee args symbol signature sources bound argOps copies target arity
      arguments binding dropped =>
    have found := Scope.lowerCallee_evaluates target
    refine .steps fun before hreadables => ⟨?_, ?_⟩
    · exact safeFrom_reads (arguments.reads_covered (found.covers hreadables))
    · exact (found.trans (arguments.evaluates.trans (binding.evaluates.trans
        (Scope.resultRegister_evaluates dropped)))).covers
        (hreadables.append _ fun name => declare_not_mem_reads name _)
  | printValue value typed printer reads =>
    exact value.triple_reads.conseq (fun _ => id) fun _ => (Lower.markRead_evaluates reads).covers
  | printChar value reads =>
    exact value.triple_reads.conseq (fun _ => id) fun _ => (Lower.markRead_evaluates reads).covers
  | printNewline =>
    exact .steps fun before hreadables => ⟨trivial, by simpa [Print.reads] using hreadables⟩
  | printText short =>
    refine .steps fun before hreadables => ⟨trivial, ?_⟩
    simpa [Print.reads, Session.Readables] using hreadables

/-- Control does not pass a return. -/
theorem LowersReturn.triple_reads {value : Option Expr} {ops : List Op}
    (h : LowersReturn scope s value ops s') :
    Triple LocalEvent.Granted s.Readables (Statement.ret value).paths fun _ => False := by
  cases h with
  | value declared value reads => exact value.triple_reads.seq .stop
  | nothing declared => exact .stop

/-- A branch, and what follows it. -/
theorem LowersExprs.triple_reads_branch {s₁ s₂ : Session} {c : Expr} {r : Register}
    {condOps : List Op} {thenBlock elseBlock rest : List Statement} {Q R : List LocalEvent → Prop}
    (condition : LowersExprs scope s [c] [r] condOps s₁)
    (reads : Lower.markRead r s₁ = .ok ((), s₂))
    (hthen : Triple LocalEvent.Granted s₂.Readables (Statement.blockPaths thenBlock) R)
    (helse : Triple LocalEvent.Granted s₂.Readables (Statement.blockPaths elseBlock) R)
    (hrest : Triple LocalEvent.Granted R (Statement.blockPaths rest) Q) :
    Triple LocalEvent.Granted s.Readables
      (Statement.blockPaths (.branch c thenBlock elseBlock :: rest)) Q := by
  rw [Statement.blockPaths, Statement.paths]
  refine .seq (condition.triple_reads.seq ((hthen.either helse).conseq ?_ fun _ => id)) hrest
  exact fun _ => (Lower.markRead_evaluates reads).covers

/-- The locals of a block are readable where lowering takes them as assigned. -/
theorem LowersBlock.triple_reads {block : List Statement} {flow : Flow} {ops : List Op}
    (h : LowersBlock scope s block flow ops s') :
    Triple LocalEvent.Granted s.Readables (Statement.blockPaths block)
      fun b => flow = .continues ∧ s'.Readables b := by
  induction h with
  | nil s => exact .steps fun before hreadables => ⟨trivial, rfl, by simpa using hreadables⟩
  | simple first tail ih => exact first.triple_reads.seq ih
  | ret last => exact last.triple_reads.seq .unreachable
  | branchReturns condition reads thenArm elseArm ihThen ihElse =>
    refine condition.triple_reads_branch (R := fun _ => False) reads
      (ihThen.conseq (fun _ => id) fun b hb => nomatch hb.1)
      (ihElse.conseq (fun b hb => ?_) fun b hb => nomatch hb.1) .unreachable
    exact hb.of_subset thenArm.extends.declared fun _ => id
  | @branch s s₁ s₂ s₃ s₄ s' c r thenBlock elseBlock rest thenFlow elseFlow flow condOps thenOps
      elseOps restOps condition reads thenArm elseArm joins tail ihThen ihElse ih =>
    refine condition.triple_reads_branch reads (ihThen.conseq (fun _ => id) ?_)
      (ihElse.conseq (fun b hb => ?_) ?_) ih
    · rintro b ⟨rfl, hreadables⟩
      exact hreadables.of_subset ((s₃.extends_restored s₂.locals.assigned).trans
        elseArm.extends).declared fun _ => Flow.mem_joinAssigned_then
    · exact hb.of_subset thenArm.extends.declared fun _ => id
    · rintro b ⟨rfl, hreadables⟩
      exact hreadables.of_subset List.prefix_rfl fun _ => Flow.mem_joinAssigned_else
  | @loop s s₁ s₂ s₃ s' c r body rest bodyFlow flow condOps bodyOps restOps condition reads inner
      tail ihInner ih =>
    have hmarked := condition.evaluates.trans (Lower.markRead_evaluates reads)
    -- a pass may declare locals again, but it cannot undo that they were assigned once
    have hkept : ∀ before path, s.OnceAssigned before → s.OnceAssigned (before ++ path) :=
      fun _ path hassigned => hassigned.mono fun _ => List.mem_append_left path
    have htest : Triple LocalEvent.Granted s.Readables (.steps (c.reads.map .read))
        s.Readables := by
      refine .steps fun before hreadables => ⟨condition.safe_reads hreadables, ?_⟩
      exact hreadables.append _ fun name => declare_not_mem_reads name c.reads
    have hback : Triple LocalEvent.Granted s.OnceAssigned (.steps [.back]) s.Readables :=
      .steps fun before hassigned =>
        ⟨⟨trivial, trivial⟩, hassigned.mono fun _ => readable_back⟩
    have hpass := ((ihInner.frame hkept).conseq
      (fun _ hb => ⟨hmarked.covers hb, hb.mono fun _ => Readable.assigned⟩)
      fun _ => And.right).seq hback
    refine (htest.loop hpass).seq (ih.conseq (fun b hb => ?_) fun _ => id)
    exact hb.of_subset (hmarked.extends.trans inner.extends).declared fun _ => id

end Triples

/-- On the paths of a lowered function, locals are read where they are readable. -/
theorem Shared.reads_readable {shared : Shared} {function : SourceFunction}
    {lowering : FunctionLowering} (h : shared.lowerFunction function = .ok lowering)
    {path pre post : List LocalEvent} {flow : Flow} {name : String}
    (hpath : function.paths path flow) (hsplit : path = pre ++ .read name :: post) :
    Readable pre name := by
  cases lowerFunction_derives h with
  | @intro symbol s final flow ops named params body returns =>
  have hstart : Paths.Triple LocalEvent.Granted (fun b => b = [])
      (.steps (function.params.map fun param => .assign param.name)) s.Readables := by
    refine .steps ?_
    rintro _ rfl
    refine ⟨Paths.safeFrom_of_forall_mem (by simp [LocalEvent.Granted]),
      params.covers nofun fun param hparam => .inl ?_⟩
    exact assignedSince_of_mem (List.mem_map_of_mem hparam) (by simp)
  exact ((hstart.seq body.triple_reads) [] path _ rfl hpath).1.ok_of_eq hsplit

/-- A read in a lowered function finds an assignment that is later than the latest
declaration of the local, unless the local is stale: it was declared again, and a pass
through a loop ended without assigning it. -/
theorem Shared.read_assigned_iff_not_stale {shared : Shared} {function : SourceFunction}
    {lowering : FunctionLowering} (h : shared.lowerFunction function = .ok lowering)
    {path pre post : List LocalEvent} {flow : Flow} {name : String}
    (hpath : function.paths path flow) (hsplit : path = pre ++ .read name :: post) :
    AssignedSince pre name ↔ ¬Stale pre name := by
  constructor
  · rintro hsince ⟨last, hagain, _⟩
    exact hagain.not_assignedSince hsince
  · intro hfresh
    rcases reads_readable h hpath hsplit with hsince | hstale
    · exact hsince
    · exact absurd hstale hfresh

/-- Declares a local again and assigns it, on one of two paths. -/
def Sample.reassigns : SourceFunction where
  path := ""
  moduleName := "m"
  name := "f"
  params := [⟨"n", .u8⟩]
  body :=
    [.declare "x" .u8 (some (.var "n")),
      .branch (.var "n") [.declare "x" .u8 none, .assign "x" (.literal ⟨2, .u8⟩)] [],
      .print (.value (.var "x"))]

/-- The sample reads the local that it declared again, without a loop in between. -/
theorem Shared.read_assigned_iff_not_stale_reassigns :
    ∃ (shared : Shared) (lowering : FunctionLowering) (path pre post : List LocalEvent),
      shared.lowerFunction Sample.reassigns = .ok lowering
      ∧ Sample.reassigns.paths path .continues
      ∧ path = pre ++ .read "x" :: post ∧ .declare "x" ∈ pre ∧ AssignedSince pre "x" := by
  obtain ⟨lowering, h⟩ := exists_ok_of_isOk
    (x := (Sample.shared Sample.reassigns "m_f$u8").lowerFunction Sample.reassigns)
    (by decide +kernel)
  have hbranch : Paths.either (Statement.blockPaths
      [.declare "x" .u8 none, .assign "x" (.literal ⟨2, .u8⟩)]) (Statement.blockPaths []) _
      .continues :=
    .inl (Paths.seq_of_continues ⟨rfl, rfl⟩ (Paths.seq_of_continues ⟨rfl, rfl⟩ ⟨rfl, rfl⟩))
  have hpath : Sample.reassigns.paths _ .continues :=
    Paths.seq_of_continues ⟨rfl, rfl⟩ (Paths.seq_of_continues ⟨rfl, rfl⟩
      (Paths.seq_of_continues (Paths.seq_of_continues ⟨rfl, rfl⟩ hbranch)
        (Paths.seq_of_continues ⟨rfl, rfl⟩ ⟨rfl, rfl⟩)))
  have hfresh : ¬Stale [.assign "n", .declare "x", .read "n", .assign "x", .read "n",
      .declare "x", .assign "x"] "x" := by
    rintro ⟨last, ⟨first, heq, _⟩, hback⟩
    have hmem : .back ∈ first ++ .declare "x" :: last := by simp [hback]
    simp [← heq] at hmem
  exact ⟨_, lowering, _, _, [], h, hpath, rfl, by decide,
    (read_assigned_iff_not_stale h hpath rfl).2 hfresh⟩

/-- Declares an assigned local again in the body of a loop. -/
def Sample.redeclares : SourceFunction where
  path := ""
  moduleName := "m"
  name := "f"
  params := [⟨"n", .u8⟩]
  body :=
    [.declare "x" .u8 (some (.literal ⟨1, .u8⟩)),
      .loop (.var "n") [.declare "x" .u8 none],
      .print (.value (.var "x"))]

/-- Behind a loop, a local is read that the last pass declared and did not assign. -/
theorem Shared.reads_unassigned_redeclares :
    ∃ (shared : Shared) (lowering : FunctionLowering) (path pre post : List LocalEvent),
      shared.lowerFunction Sample.redeclares = .ok lowering
      ∧ Sample.redeclares.paths path .continues
      ∧ path = pre ++ .read "x" :: post ∧ ¬AssignedSince pre "x" := by
  obtain ⟨lowering, h⟩ := exists_ok_of_isOk
    (x := (Sample.shared Sample.redeclares "m_f$u8").lowerFunction Sample.redeclares)
    (by decide +kernel)
  have hagain : Redeclared [.assign "n", .declare "x", .assign "x", .read "n", .declare "x",
      .back, .read "n"] "x" [.back, .read "n"] :=
    ⟨[.assign "n", .declare "x", .assign "x", .read "n"], rfl, by decide, by decide, by decide⟩
  refine ⟨_, lowering, _, _, [], h, ?_, rfl, hagain.not_assignedSince⟩
  have hparam : Paths.steps [LocalEvent.assign "n"] _ .continues := ⟨rfl, rfl⟩
  have hdeclare : Statement.paths (.declare "x" .u8 (some (.literal ⟨1, .u8⟩))) _ .continues :=
    ⟨rfl, rfl⟩
  have hloop : Statement.paths (.loop (.var "n") [.declare "x" .u8 none]) _ .continues :=
    .again ⟨rfl, rfl⟩ (Paths.seq_of_continues (Paths.seq_of_continues ⟨rfl, rfl⟩ ⟨rfl, rfl⟩)
      ⟨rfl, rfl⟩) (.leave ⟨rfl, rfl⟩)
  have hprint : Statement.paths (.print (.value (.var "x"))) _ .continues := ⟨rfl, rfl⟩
  have hdone : Statement.blockPaths [] _ .continues := ⟨rfl, rfl⟩
  have hall := Paths.seq_of_continues hparam (Paths.seq_of_continues hdeclare
    (Paths.seq_of_continues hloop (Paths.seq_of_continues hprint hdone)))
  exact hall

end ScalarC
