import ScalarC.Code

/-!
# Equality of operations

Operations contain lists of operations, so their equality is decided by a comparison
of its own.
-/

namespace ScalarC

namespace Op

mutual

/-- Whether two operations are the same. -/
def same : Op → Op → Bool
  | .loadConst dest value, .loadConst dest' value' => dest == dest' && value == value'
  | .loadLocal dest name, .loadLocal dest' name' => dest == dest' && name == name'
  | .copy dest src, .copy dest' src' => dest == dest' && src == src'
  | .storeLocal name src, .storeLocal name' src' => name == name' && src == src'
  | .binary dest op lhs rhs, .binary dest' op' lhs' rhs' =>
    dest == dest' && op == op' && lhs == lhs' && rhs == rhs'
  | .cast dest src, .cast dest' src' => dest == dest' && src == src'
  | .call dest callee args, .call dest' callee' args' =>
    dest == dest' && callee == callee' && args == args'
  | .print routine arg, .print routine' arg' => routine == routine' && arg == arg'
  | .ret value, .ret value' => value == value'
  | .branch cond thenOps elseOps, .branch cond' thenOps' elseOps' =>
    cond == cond' && sameAll thenOps thenOps' && sameAll elseOps elseOps'
  | .loop condOps cond body, .loop condOps' cond' body' =>
    sameAll condOps condOps' && cond == cond' && sameAll body body'
  | _, _ => false

def sameAll : List Op → List Op → Bool
  | [], [] => true
  | op :: ops, op' :: ops' => same op op' && sameAll ops ops'
  | _, _ => false

end

mutual

theorem same_iff (op op' : Op) : op.same op' = true ↔ op = op' := by
  cases op <;> cases op' <;> simp [same, sameAll_iff, and_assoc]

theorem sameAll_iff (ops ops' : List Op) : sameAll ops ops' = true ↔ ops = ops' := by
  cases ops <;> cases ops' <;> simp [sameAll, same_iff, sameAll_iff]

end

instance : DecidableEq Op :=
  fun op op' => decidable_of_iff (op.same op' = true) (same_iff op op')

end Op

end ScalarC
