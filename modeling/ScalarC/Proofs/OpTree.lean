import ScalarC.Code

/-!
# Operations of a tree

Branches and loops hold lists of operations, so the operations of a function form a
tree. This module lists them in the order of the code and collects what they do: the
registers they write and read, the locals they load and store, and the string constants
they print.
-/

namespace ScalarC

namespace Op

/-- The register that an operation writes. -/
def dest? : Op → Option Register
  | .loadConst dest _ | .loadLocal dest _ | .copy dest _ | .binary dest _ _ _ | .cast dest _ =>
    some dest
  | .call dest _ _ => dest
  | _ => none

/-- The registers that an operation reads by itself: operands, arguments, the condition
of a branch or loop, and the value of a return. -/
def operands : Op → List Register
  | .copy _ src | .storeLocal _ src | .cast _ src => [src]
  | .binary _ _ lhs rhs => [lhs, rhs]
  | .call _ _ args => args
  | .print _ (.register source) => [source]
  | .ret value => value.toList
  | .branch cond _ _ | .loop _ cond _ => [cond]
  | _ => []

def loaded? : Op → Option String
  | .loadLocal _ name => some name
  | _ => none

def stored? : Op → Option String
  | .storeLocal name _ => some name
  | _ => none

/-- The number of the string constant that an operation prints. -/
def string? : Op → Option Nat
  | .print _ (.string index) => some index
  | _ => none

mutual

/-- The operation with those nested in it, in the order of the code: the condition of a
loop before the body, the first arm of a branch before the second. -/
def nested : Op → List Op
  | .branch cond thenOps elseOps =>
    .branch cond thenOps elseOps :: (nestedAll thenOps ++ nestedAll elseOps)
  | .loop condOps cond body => .loop condOps cond body :: (nestedAll condOps ++ nestedAll body)
  | op => [op]

/-- All operations of the trees, in the order of the code. -/
def nestedAll : List Op → List Op
  | [] => []
  | op :: rest => nested op ++ nestedAll rest

end

theorem mem_nested_self (op : Op) : op ∈ op.nested := by
  cases op <;> simp [nested]

@[simp] theorem nestedAll_append (ops rest : List Op) :
    nestedAll (ops ++ rest) = nestedAll ops ++ nestedAll rest := by
  induction ops with
  | nil => rfl
  | cons op ops ih => simp [nestedAll, ih]

/-- The registers that operations write, in the order of the code. -/
def dests (ops : List Op) : List Register := (nestedAll ops).filterMap dest?

def reads (ops : List Op) : List Register := (nestedAll ops).flatMap operands

def loads (ops : List Op) : List String := (nestedAll ops).filterMap loaded?

def stores (ops : List Op) : List String := (nestedAll ops).filterMap stored?

/-- The string constants that operations print, in the order of the code. -/
def strings (ops : List Op) : List Nat := (nestedAll ops).filterMap string?

end Op

/-- What operations do to the tables of their function. -/
@[ext]
structure Footprint where
  dests : List Register := []
  reads : List Register := []
  loads : List String := []
  strings : List Nat := []

namespace Footprint

instance : Append Footprint where
  append f g := ⟨f.dests ++ g.dests, f.reads ++ g.reads, f.loads ++ g.loads, f.strings ++ g.strings⟩

def ofOps (ops : List Op) : Footprint :=
  ⟨Op.dests ops, Op.reads ops, Op.loads ops, Op.strings ops⟩

variable {f g h : Footprint} {ops rest : List Op}

@[simp] theorem dests_append : (f ++ g).dests = f.dests ++ g.dests := rfl

@[simp] theorem reads_append : (f ++ g).reads = f.reads ++ g.reads := rfl

@[simp] theorem loads_append : (f ++ g).loads = f.loads ++ g.loads := rfl

@[simp] theorem strings_append : (f ++ g).strings = f.strings ++ g.strings := rfl

@[simp] theorem append_empty : f ++ {} = f := by
  ext1 <;> simp

@[simp] theorem empty_append : {} ++ f = f := rfl

theorem append_assoc : f ++ g ++ h = f ++ (g ++ h) := by
  ext1 <;> simp

@[simp] theorem ofOps_nil : ofOps [] = {} := rfl

@[simp] theorem ofOps_append : ofOps (ops ++ rest) = ofOps ops ++ ofOps rest := by
  ext1 <;> simp [ofOps, Op.dests, Op.reads, Op.loads, Op.strings]

theorem ofOps_cons (op : Op) (rest : List Op) : ofOps (op :: rest) = ofOps [op] ++ ofOps rest := by
  rw [← ofOps_append, List.singleton_append]

/-- An operation that nests no others does what it does by itself. -/
theorem ofOps_flat {op : Op} (h : op.nested = [op]) :
    ofOps [op] = ⟨op.dest?.toList, op.operands, op.loaded?.toList, op.string?.toList⟩ := by
  have hall : Op.nestedAll [op] = [op] := by simp [Op.nestedAll, h]
  have hone : ∀ {α : Type} (view : Op → Option α), [op].filterMap view = (view op).toList := by
    intro α view
    cases hview : view op <;> simp [hview]
  simp [ofOps, Op.dests, Op.reads, Op.loads, Op.strings, hall, hone]

theorem ofOps_call (dest : Option Register) (callee : Symbol) (args : List Register) :
    ofOps [.call dest callee args] = { reads := args } ++ { dests := dest.toList } := by
  rw [ofOps_flat rfl]
  ext1 <;> simp [Op.dest?, Op.operands, Op.loaded?, Op.string?]

/-- A branch reads its condition, then does what its arms do. -/
theorem ofOps_branch (cond : Register) (thenOps elseOps : List Op) :
    ofOps [.branch cond thenOps elseOps]
      = { reads := [cond] } ++ ofOps thenOps ++ ofOps elseOps := by
  ext1 <;> simp [ofOps, Op.dests, Op.reads, Op.loads, Op.strings, Op.nestedAll, Op.nested,
    List.filterMap_cons, Op.dest?, Op.operands, Op.loaded?, Op.string?]

theorem ofOps_loop (condOps : List Op) (cond : Register) (body : List Op) :
    ofOps [.loop condOps cond body]
      = { reads := [cond] } ++ ofOps condOps ++ ofOps body := by
  ext1 <;> simp [ofOps, Op.dests, Op.reads, Op.loads, Op.strings, Op.nestedAll, Op.nested,
    List.filterMap_cons, Op.dest?, Op.operands, Op.loaded?, Op.string?]

end Footprint

end ScalarC
