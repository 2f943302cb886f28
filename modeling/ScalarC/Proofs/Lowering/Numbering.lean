import ScalarC.Proofs.Lowering.Records
import ScalarC.Source.Sample

/-!
# Numbering of registers

How many registers an expression takes is seen from its shape: one for each node, and for
a call one more for each argument, which holds the copy that is passed. Lowering hands out
that many registers, numbered on from the last one before, and the operations write them
in this order. The rows of the registers before stay as they are, marks included, although
lowering marks registers all the time: those it marks are its own.
-/

namespace ScalarC

namespace Expr

mutual

/-- The number of registers that an expression takes. -/
def size : Expr → Nat
  | literal _ | var _ | constant _ => 1
  | binary _ lhs rhs => lhs.size + rhs.size + 1
  | cast value _ => value.size + 1
  | call _ args => totalSize args + args.length + 1

/-- The sum of the sizes of expressions. -/
def totalSize : List Expr → Nat
  | [] => 0
  | e :: rest => e.size + totalSize rest

end

end Expr

namespace Op

theorem dests_nil : dests [] = [] := rfl

theorem dests_append (ops rest : List Op) : dests (ops ++ rest) = dests ops ++ dests rest := by
  simp [dests]

/-- An operation without blocks writes its own register first. -/
theorem dests_cons {op : Op} {dest : Register} (hflat : op.nested = [op])
    (hdest : op.dest? = some dest) (rest : List Op) :
    dests (op :: rest) = dest :: dests rest := by
  simp [dests, nestedAll, hflat, hdest]

end Op

/-- Marking a register beyond the first rows changes only the rows behind them. -/
theorem RegisterTable.markRead?_append {t t' : RegisterTable} {rows added : List RegisterRow}
    {r : Register} (ht : t.rows = rows ++ added) (hr : rows.length < r.number)
    (h : t.markRead? r = some t') :
    ∃ marked, t'.rows = rows ++ marked ∧ marked.map (·.register) = added.map (·.register) := by
  obtain ⟨n, hn, _, rfl⟩ := markRead?_eq_some h
  obtain ⟨i, rfl⟩ : ∃ i, n = rows.length + i := ⟨n - rows.length, by omega⟩
  refine ⟨added.modify i fun row => { row with read := true }, ?_, ?_⟩
  · simp only [ht]
    exact List.modifyTailIdx_add _ i rows added
  · rw [map_modify_eq]
    intro row
    rfl

namespace Session

/-- The step from `s` to `s'` hands out the registers, which are numbered on from those of
`s`. Their rows stand behind the rows of `s`, which stay as they are. -/
structure HandsOut (s : Session) (registers : List Register) (s' : Session) : Prop where
  rows : ∃ added, s'.registers.rows = s.registers.rows ++ added
    ∧ added.map (·.register) = registers
  numbers : registers.map (·.number)
    = List.range' (s.registers.size + 1) registers.length

namespace HandsOut

variable {s s₁ s' : Session} {registers later : List Register}

theorem size_eq (h : s.HandsOut registers s') :
    s'.registers.size = s.registers.size + registers.length := by
  obtain ⟨added, hrows, rfl⟩ := h.rows
  simp [RegisterTable.size, hrows]

/-- The registers are numbered beyond those of `s`. -/
theorem lt_number (h : s.HandsOut registers s') :
    ∀ r ∈ registers, s.registers.size < r.number := by
  intro r hr
  have hmem : r.number ∈ registers.map (·.number) := List.mem_map_of_mem hr
  rw [h.numbers, List.mem_range'_1] at hmem
  omega

theorem of_registers_eq (h : s'.registers = s.registers) : s.HandsOut [] s' :=
  ⟨⟨[], by simp [h], rfl⟩, rfl⟩

theorem trans (h : s.HandsOut registers s₁) (h' : s₁.HandsOut later s') :
    s.HandsOut (registers ++ later) s' := by
  have hsize := h.size_eq
  obtain ⟨⟨added, hrows, hadded⟩, hnumbers⟩ := h
  obtain ⟨⟨added', hrows', hadded'⟩, hnumbers'⟩ := h'
  refine ⟨⟨added ++ added', by simp [hrows', hrows], by simp [hadded, hadded']⟩, ?_⟩
  rw [List.map_append, hnumbers, hnumbers', hsize, List.length_append, ← List.range'_append_1,
    Nat.add_right_comm]

theorem defined (h : s.HandsOut registers s₁) (ty : Scalar) :
    s.HandsOut (registers ++ [s₁.next]) (s₁.defined ty) :=
  h.trans ⟨⟨[{ register := s₁.next, ty, written := true }], rfl, rfl⟩, rfl⟩

/-- A register that was handed out since may be marked. -/
theorem markRead {r : Register} {u : Unit} (h : s.HandsOut registers s₁)
    (hr : s.registers.size < r.number) (hread : Lower.markRead r s₁ = .ok (u, s')) :
    s.HandsOut registers s' := by
  obtain ⟨table, hmark, rfl⟩ := Lower.markRead_ok.1 hread
  obtain ⟨⟨added, hrows, hadded⟩, hnumbers⟩ := h
  obtain ⟨marked, hrows', hmarked⟩ := RegisterTable.markRead?_append hrows hr hmark
  exact ⟨⟨marked, hrows', hmarked.trans hadded⟩, hnumbers⟩

end HandsOut

end Session

open Session

variable {scope : Scope} {s s' : Session}

theorem Scope.registers_literalValue {value n : Int} {ty : Scalar}
    (h : scope.literalValue value ty s = .ok (n, s')) : s'.registers = s.registers := by
  obtain ⟨_, diagnostics, rfl⟩ := literalValue_ok h
  rfl

theorem Scope.registers_lowerCallee {callee : Callee} {symbol : Symbol} {signature : Signature}
    (h : scope.lowerCallee callee s = .ok ((symbol, signature), s')) :
    s'.registers = s.registers := by
  obtain ⟨_, _, ⟨_, rfl⟩ | ⟨_, rfl⟩⟩ := lowerCallee_ok h <;> rfl

theorem Lower.registers_readLocal {name : String} {ty : Scalar}
    (h : readLocal name s = .ok (ty, s')) : s'.registers = s.registers := by
  obtain ⟨table, _, rfl⟩ := readLocal_ok.1 h
  rfl

namespace BindsArgs

variable {sources bound : List Register} {types : List Scalar} {copies : List Op}

theorem length_dests (h : BindsArgs s sources types bound copies s') :
    (Op.dests copies).length = sources.length := by
  induction h with
  | nil s => rfl
  | cons readSource readCopy tail ih =>
    rw [Op.dests_cons rfl rfl, List.length_cons, ih, List.length_cons]

/-- Arguments that were evaluated since `start` are copied without a trace in the rows
before. -/
theorem handsOut {start : Session} {registers : List Register}
    (h : BindsArgs s sources types bound copies s') (before : start.HandsOut registers s)
    (hsources : ∀ r ∈ sources, start.registers.size < r.number) :
    start.HandsOut (registers ++ Op.dests copies) s' := by
  induction h generalizing registers with
  | nil s => simpa [Op.dests_nil] using before
  | @cons s s₁ s₂ s' src ty sources bound types copies readSource readCopy tail ih =>
    obtain ⟨hsrc, hrest⟩ := List.forall_mem_cons.1 hsources
    have hread := before.markRead hsrc readSource
    have hnext : start.registers.size < s₁.next.number := by
      rw [number_next, hread.size_eq]
      omega
    rw [Op.dests_cons rfl rfl, List.append_cons]
    exact ih ((hread.defined ty).markRead hnext readCopy) hrest

end BindsArgs

namespace LowersExprs

variable {es : List Expr} {registers : List Register} {ops : List Op}

/-- The operations write as many registers as the expressions take. -/
theorem length_dests (h : LowersExprs scope s es registers ops s') :
    (Op.dests ops).length = Expr.totalSize es := by
  induction h with
  | nil s => rfl
  | literal value tail ih | constant found value tail ih | var read tail ih =>
    rw [Op.dests_cons rfl rfl, List.length_cons, ih, Nat.add_comm]
    rfl
  | binary operands readLeft readRight result tail ihOperands ih =>
    simp only [Expr.totalSize] at ihOperands
    rw [Op.dests_append, Op.dests_cons rfl rfl, List.length_append, List.length_cons, ihOperands,
      ih]
    simp only [Expr.totalSize, Expr.size]
    omega
  | cast operand readSource tail ihOperand ih =>
    simp only [Expr.totalSize] at ihOperand
    rw [Op.dests_append, Op.dests_cons rfl rfl, List.length_append, List.length_cons, ihOperand, ih]
    simp only [Expr.totalSize, Expr.size]
    omega
  | call target arity arguments binding returns tail ihArguments ih =>
    have hcopies := binding.length_dests.trans arguments.length_eq
    rw [Op.dests_append, Op.dests_append, Op.dests_cons rfl rfl, List.length_append,
      List.length_append, List.length_cons, ihArguments, hcopies, ih]
    simp only [Expr.totalSize, Expr.size]
    omega

/-- The operations write the registers that are handed out, each one once and in order. -/
theorem handsOut (h : LowersExprs scope s es registers ops s') :
    s.HandsOut (Op.dests ops) s' := by
  induction h with
  | nil s => exact .of_registers_eq rfl
  | literal value tail ih | constant found value tail ih =>
    have hsilent := HandsOut.of_registers_eq (Scope.registers_literalValue value)
    rw [Op.dests_cons rfl rfl]
    exact (hsilent.defined _).trans ih
  | var read tail ih =>
    have hsilent := HandsOut.of_registers_eq (Lower.registers_readLocal read)
    rw [Op.dests_cons rfl rfl]
    exact (hsilent.defined _).trans ih
  | binary operands readLeft readRight result tail ihOperands ih =>
    have hleft := (operands.register_bounds _ List.mem_cons_self).1
    have hright := (operands.register_bounds _ (List.mem_cons_of_mem _ List.mem_cons_self)).1
    have hread := (ihOperands.markRead hleft readLeft).markRead hright readRight
    rw [Op.dests_append, Op.dests_cons rfl rfl, List.append_cons]
    exact (hread.defined _).trans ih
  | cast operand readSource tail ihOperand ih =>
    have hsrc := (operand.register_bounds _ List.mem_cons_self).1
    rw [Op.dests_append, Op.dests_cons rfl rfl, List.append_cons]
    exact ((ihOperand.markRead hsrc readSource).defined _).trans ih
  | call target arity arguments binding returns tail ihArguments ih =>
    have hfound := Scope.registers_lowerCallee target
    -- the copies mark the arguments as read, so the bound is taken before the arguments
    have hsources := fun r hr => (arguments.register_bounds r hr).1
    rw [hfound] at hsources
    have hbound := binding.handsOut ((HandsOut.of_registers_eq hfound).trans ihArguments) hsources
    rw [Op.dests_append, Op.dests_append, Op.dests_cons rfl rfl, List.append_cons]
    exact (hbound.defined _).trans ih

/-- Every rule hands out the register of its expression last, before it goes on. -/
theorem exists_defined {e : Expr} {r : Register} {rest : List Expr}
    (h : LowersExprs scope s (e :: rest) (r :: registers) ops s') :
    ∃ (s₁ : Session) (ty : Scalar) (restOps : List Op), r = s₁.next
      ∧ LowersExprs scope (s₁.defined ty) rest registers restOps s' := by
  cases h with
  | literal value tail | constant found value tail | var read tail
  | binary operands readLeft readRight result tail | cast operand readSource tail
  | call target arity arguments binding returns tail => exact ⟨_, _, _, rfl, tail⟩

/-- The register of an expression is the last one that its lowering hands out. -/
theorem number_eq_size {e : Expr} {r : Register} (h : LowersExprs scope s [e] [r] ops s') :
    r.number = s'.registers.size := by
  obtain ⟨s₁, ty, restOps, rfl, tail⟩ := h.exists_defined
  cases tail
  simp

end LowersExprs

namespace Scope

/-- Lowering an expression hands out as many registers as the shape of the expression says,
and the value is in the last one. Earlier rows, the declared locals and the assigned slots
stay as they are, and the operations write exactly the registers that are handed out. -/
theorem lowerExpr_numbering {e : Expr} {r : Register} {ops : List Op}
    (h : scope.lowerExpr e s = .ok ((r, ops), s')) :
    (∃ added, s'.registers.rows = s.registers.rows ++ added
        ∧ added.map (·.register) = Op.dests ops
        ∧ added.map (·.register.number) = List.range' (s.registers.size + 1) e.size)
      ∧ s'.registers.size = s.registers.size + e.size
      ∧ r.number = s.registers.size + e.size
      ∧ s'.locals.declared = s.locals.declared
      ∧ s'.locals.assigned = s.locals.assigned
      ∧ ∀ dest ∈ Op.dests ops, s.registers.size < dest.number := by
  have hlowers := lowerExpr_derives_one h
  have hout := hlowers.handsOut
  have hlength : (Op.dests ops).length = e.size := hlowers.length_dests
  have hsize : s'.registers.size = s.registers.size + e.size := hlength ▸ hout.size_eq
  obtain ⟨added, hrows, hadded⟩ := hout.rows
  have hnumbers : added.map (·.register.number) = List.range' (s.registers.size + 1) e.size := by
    rw [← hlength, ← hout.numbers, ← hadded, List.map_map]
    rfl
  exact ⟨⟨added, hrows, hadded, hnumbers⟩, hsize, hlowers.number_eq_size.trans hsize,
    hlowers.evaluates.declared, hlowers.evaluates.assigned, hout.lt_number⟩

end Scope

namespace Sample

/-- A function of one parameter, which may add two bytes by a call. -/
def addsNested : Scope where
  shared :=
    { settings := {}
      registry := { spelling := .canonical, delimiter := '$' }
      signatures := [((addNumbers "").id, ⟨"simple_add_add_numbers$u8$u8", [.u8, .u8], some .u8⟩)]
      constants := [⟨"STEP", .u8, 3⟩] }
  function := { path := "", moduleName := "m", name := "f", params := [⟨"n", .u8⟩] }

/-- The session when its parameter is declared. -/
def paramDeclared : Session where
  registers := { rows := [{ register := ⟨1⟩, ty := .u8 }] }
  locals :=
    { function := "m::f"
      slots := [{ name := "n", ty := .u8, isParam := true }]
      index := NameTable.empty.insert "n" 0
      assigned := [0] }
  indexed := (LocalTable.indexed_new "m::f").addSlot rfl [0]

/-- A call in the first argument of a call, and two operations in the second. -/
def nestedSum : Expr :=
  .call (.function (addNumbers "").id)
    [.call (.function (addNumbers "").id) [.var "n", .literal ⟨1, .u8⟩],
      .cast (.binary .mul (.constant "STEP") (.var "n")) .u8]

end Sample

/-- Five registers for the inner call, four for the other argument, two for the copies and
one for the result stand behind the register of the parameter. -/
theorem Scope.lowerExpr_numbering_nestedSum :
    ∃ r ops s', Sample.addsNested.lowerExpr Sample.nestedSum Sample.paramDeclared
        = .ok ((r, ops), s')
      ∧ Sample.nestedSum.size = 12 ∧ r.number = 13 ∧ s'.registers.size = 13
      ∧ (Op.dests ops).map (·.number) = List.range' 2 12
      ∧ s'.registers.row? ⟨1⟩ = some { register := ⟨1⟩, ty := .u8 }
      ∧ s'.locals.declared = [{ name := "n", ty := .u8, isParam := true }]
      ∧ s'.locals.assigned = [0] := by
  obtain ⟨⟨⟨r, ops⟩, s'⟩, h⟩ := exists_ok_of_isOk
    (x := Sample.addsNested.lowerExpr Sample.nestedSum Sample.paramDeclared) (by decide +kernel)
  obtain ⟨⟨added, hrows, hdests, hnumbers⟩, hsize, hr, hdeclared, hassigned, _⟩ :=
    lowerExpr_numbering h
  refine ⟨r, ops, s', h, rfl, hr, hsize, ?_, ?_, hdeclared, hassigned⟩
  · rw [← hdests, List.map_map]
    exact hnumbers
  · rw [RegisterTable.row?, hrows]
    rfl

end ScalarC
