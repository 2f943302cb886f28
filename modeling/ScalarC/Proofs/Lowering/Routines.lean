import ScalarC.Proofs.OpTree
import ScalarC.Proofs.Lowering.BlockDerivation

/-!
# Routines of lowered code

Expressions print nothing, and a statement that prints does so through one of the routines
of the generated file. So do all operations of a lowered function, at every depth.
-/

namespace ScalarC

namespace Op

/-- The routine that an operation prints through. -/
def routine? : Op → Option Routine
  | .print routine _ => some routine
  | _ => none

/-- The routines that operations print through, in the order of the code. -/
def routines (ops : List Op) : List Routine := (nestedAll ops).filterMap routine?

variable {ops rest : List Op}

@[simp] theorem routines_nil : routines [] = [] := rfl

@[simp] theorem routines_append : routines (ops ++ rest) = routines ops ++ routines rest := by
  simp [routines]

/-- An operation without blocks prints at most through its own routine. -/
theorem routines_cons {op : Op} (h : op.nested = [op]) (rest : List Op) :
    routines (op :: rest) = op.routine?.toList ++ routines rest := by
  cases hop : op.routine? <;> simp [routines, nestedAll, h, hop]

theorem routines_branch (cond : Register) (thenOps elseOps rest : List Op) :
    routines (.branch cond thenOps elseOps :: rest)
      = routines thenOps ++ routines elseOps ++ routines rest := by
  simp [routines, nestedAll, nested, List.filterMap_cons, routine?]

theorem routines_loop (condOps : List Op) (cond : Register) (body rest : List Op) :
    routines (.loop condOps cond body :: rest)
      = routines condOps ++ routines body ++ routines rest := by
  simp [routines, nestedAll, nested, List.filterMap_cons, routine?]

end Op

/-- The routine of a type is one of the file. -/
theorem Routine.mem_all_of_printer? {ty : Scalar} {routine : Routine}
    (h : printer? ty = some routine) : routine ∈ all := by
  have hall : ∀ ty ∈ Scalar.all, ∀ routine ∈ printer? ty, routine ∈ all := by decide
  exact hall ty ty.mem_all routine h

open Op

variable {scope : Scope} {s s' : Session}

theorem BindsArgs.routines_eq {sources bound : List Register} {types : List Scalar}
    {copies : List Op} (h : BindsArgs s sources types bound copies s') : routines copies = [] := by
  induction h with
  | nil s => rfl
  | cons readSource readCopy tail ih =>
    rw [routines_cons rfl, ih]
    rfl

theorem LowersExprs.routines_eq {es : List Expr} {registers : List Register} {ops : List Op}
    (h : LowersExprs scope s es registers ops s') : routines ops = [] := by
  induction h with
  | nil s => rfl
  | literal value tail ih | constant found value tail ih | var read tail ih =>
    rw [routines_cons rfl, ih]
    rfl
  | binary operands readLeft readRight result tail ihOperands ih =>
    rw [routines_append, ihOperands, routines_cons rfl, ih]
    rfl
  | cast operand readSource tail ihOperand ih =>
    rw [routines_append, ihOperand, routines_cons rfl, ih]
    rfl
  | call target arity arguments binding returns tail ihArguments ih =>
    rw [routines_append, routines_append, ihArguments, binding.routines_eq, routines_cons rfl, ih]
    rfl

theorem LowersSimple.mem_routines {statement : Statement} {ops : List Op}
    (h : LowersSimple scope s statement ops s') :
    ∀ routine ∈ routines ops, routine ∈ Routine.all := by
  have hflat : ∀ {es : List Expr} {registers : List Register} {ops : List Op} {s s' : Session},
      LowersExprs scope s es registers ops s' → ∀ op : Op, op.nested = [op] →
      routines (ops ++ [op]) = op.routine?.toList := by
    intro es registers ops s s' hops op hop
    rw [routines_append, hops.routines_eq, routines_cons hop]
    simp
  cases h with
  | declare declares => exact List.forall_mem_nil _
  | declareInit declares value assigns reads | assign known value assigns reads =>
    rw [hflat value _ rfl]
    exact List.forall_mem_nil _
  | eval noCall value =>
    rw [value.routines_eq]
    exact List.forall_mem_nil _
  | evalCall target arity arguments binding dropped =>
    rw [routines_append, routines_append, arguments.routines_eq, binding.routines_eq]
    exact List.forall_mem_nil _
  | printValue value typed printer reads =>
    rw [hflat value _ rfl]
    exact List.forall_mem_singleton.2 (Routine.mem_all_of_printer? printer)
  | printChar value reads =>
    rw [hflat value _ rfl]
    exact List.forall_mem_singleton.2 (by decide)
  | printNewline | printText => exact List.forall_mem_singleton.2 (by decide)

theorem LowersReturn.routines_eq {value : Option Expr} {ops : List Op}
    (h : LowersReturn scope s value ops s') : routines ops = [] := by
  cases h with
  | value declared value reads =>
    rw [routines_append, value.routines_eq]
    rfl
  | nothing declared => rfl

/-- A block prints through routines of the file. -/
theorem LowersBlock.mem_routines {block : List Statement} {flow : Flow} {ops : List Op}
    (h : LowersBlock scope s block flow ops s') :
    ∀ routine ∈ routines ops, routine ∈ Routine.all := by
  induction h with
  | nil s => exact List.forall_mem_nil _
  | simple first tail ih =>
    rw [routines_append]
    exact List.forall_mem_append.2 ⟨first.mem_routines, ih⟩
  | ret last =>
    rw [last.routines_eq]
    exact List.forall_mem_nil _
  | branchReturns condition reads thenArm elseArm ihThen ihElse =>
    rw [routines_append, condition.routines_eq, routines_branch, routines_nil, List.append_nil,
      List.nil_append]
    exact List.forall_mem_append.2 ⟨ihThen, ihElse⟩
  | branch condition reads thenArm elseArm joins tail ihThen ihElse ih =>
    rw [routines_append, condition.routines_eq, routines_branch, List.nil_append]
    exact List.forall_mem_append.2 ⟨List.forall_mem_append.2 ⟨ihThen, ihElse⟩, ih⟩
  | loop condition reads inner tail ihInner ih =>
    rw [routines_loop, condition.routines_eq, List.nil_append]
    exact List.forall_mem_append.2 ⟨ihInner, ih⟩

end ScalarC
