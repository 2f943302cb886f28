import Mathlib.Data.List.Nodup
import ScalarC.Proofs.Lowering.Records
import ScalarC.Proofs.Lowering.Typing

/-!
# The tables of a lowered function

The register table of a lowered function lists its registers in order, each is written by
at most one operation, and the marks of registers and locals say exactly what the
operations do. Only registers that some operation writes are read.
-/

namespace ScalarC

namespace Footprint

variable {f g : Footprint} {registers : List Register} {r : Register}

/-- Every register that is read is also written. -/
def Closed (f : Footprint) : Prop := ∀ r ∈ f.reads, r ∈ f.dests

theorem closed_of_reads_nil (h : f.reads = []) : f.Closed := by
  simp [Closed, h]

theorem Closed.append (hf : f.Closed) (hg : g.Closed) : (f ++ g).Closed := by
  intro r hr
  rw [reads_append, List.mem_append] at hr
  rw [dests_append, List.mem_append]
  exact hr.imp (hf r) (hg r)

/-- What was written may be read. -/
theorem Closed.use (hf : f.Closed) (hg : ∀ r ∈ g.reads, r ∈ f.dests) : (f ++ g).Closed := by
  intro r hr
  rw [reads_append, List.mem_append] at hr
  rw [dests_append, List.mem_append]
  exact .inl (hr.elim (hf r) (hg r))

/-- The footprint writes the registers, and whatever it reads. -/
structure Supplies (f : Footprint) (registers : List Register) : Prop where
  closed : f.Closed
  mem : ∀ r ∈ registers, r ∈ f.dests

theorem Supplies.cons (h : g.Supplies registers) (hf : f.Supplies [r]) :
    (f ++ g).Supplies (r :: registers) where
  closed := hf.closed.append h.closed
  mem := by
    intro other hother
    rw [dests_append, List.mem_append]
    rcases List.mem_cons.1 hother with rfl | hother
    · exact .inl (hf.mem other (by simp))
    · exact .inr (h.mem other hother)

theorem supplies_nil : ({} : Footprint).Supplies [] :=
  ⟨closed_of_reads_nil rfl, by simp⟩

/-- An operation that reads what was supplied, and supplies its own register. -/
theorem Supplies.op {op : Op} (h : f.Supplies registers) (hflat : op.nested = [op])
    (hreads : ∀ r ∈ op.operands, r ∈ registers) (hdest : op.dest? = some r) :
    (f ++ ofOps [op]).Supplies [r] := by
  rw [ofOps_flat hflat, hdest]
  exact ⟨h.closed.use fun r hr => h.mem r (hreads r hr), by simp⟩

theorem supplies_op {op : Op} (hflat : op.nested = [op]) (hreads : op.operands = [])
    (hdest : op.dest? = some r) : (ofOps [op]).Supplies [r] := by
  simpa using supplies_nil.op hflat (by simp [hreads]) hdest

/-- Copies of what was supplied. -/
theorem Supplies.copy (h : f.Supplies registers) (copies : List Register) :
    (f ++ { dests := copies, reads := registers }).Supplies copies :=
  ⟨h.closed.use h.mem, fun r hr => by simp [hr]⟩

/-- An operation that reads what was supplied, and writes nothing. -/
theorem Supplies.use {op : Op} (h : f.Supplies registers) (hflat : op.nested = [op])
    (hreads : ∀ r ∈ op.operands, r ∈ registers) : (f ++ ofOps [op]).Closed := by
  rw [ofOps_flat hflat]
  exact h.closed.use fun r hr => h.mem r (hreads r hr)

end Footprint

open Footprint

variable {scope : Scope} {s s' : Session}

theorem BindsArgs.footprint {sources bound : List Register} {types : List Scalar}
    {copies : List Op} (h : BindsArgs s sources types bound copies s') :
    ofOps copies = { dests := bound, reads := sources } := by
  induction h with
  | nil s => rfl
  | cons readSource readCopy tail ih =>
    rw [ofOps_cons, ih]
    rfl

theorem LowersExprs.supplies {es : List Expr} {registers : List Register} {ops : List Op}
    (h : LowersExprs scope s es registers ops s') : (ofOps ops).Supplies registers := by
  induction h with
  | nil s => exact supplies_nil
  | literal value tail ih | constant found value tail ih | var read tail ih =>
    rw [ofOps_cons]
    exact ih.cons (supplies_op rfl rfl rfl)
  | binary operands readLeft readRight result tail ihOperands ih =>
    rw [ofOps_append, ofOps_cons, ← append_assoc]
    exact ih.cons (ihOperands.op rfl (by simp [Op.operands]) rfl)
  | cast operand readSource tail ihOperand ih =>
    rw [ofOps_append, ofOps_cons, ← append_assoc]
    exact ih.cons (ihOperand.op rfl (by simp [Op.operands]) rfl)
  | call target arity arguments binding returns tail ihArguments ih =>
    rw [ofOps_append, ofOps_append, binding.footprint, ofOps_cons, ← append_assoc]
    exact ih.cons ((ihArguments.copy _).op rfl (by simp [Op.operands]) rfl)

theorem LowersSimple.closed {statement : Statement} {ops : List Op}
    (h : LowersSimple scope s statement ops s') : (ofOps ops).Closed := by
  cases h with
  | declare declares => exact closed_of_reads_nil rfl
  | declareInit declares value assigns reads =>
    rw [ofOps_append]
    exact value.supplies.use rfl (by simp [Op.operands])
  | assign known value assigns reads =>
    rw [ofOps_append]
    exact value.supplies.use rfl (by simp [Op.operands])
  | eval noCall value => exact value.supplies.closed
  | evalCall target arity arguments binding dropped =>
    rw [ofOps_append, ofOps_append, binding.footprint]
    exact (arguments.supplies.copy _).use rfl (by simp [Op.operands])
  | printValue value typed printer reads =>
    rw [ofOps_append]
    exact value.supplies.use rfl (by simp [Op.operands])
  | printChar value reads =>
    rw [ofOps_append]
    exact value.supplies.use rfl (by simp [Op.operands])
  | printNewline => exact closed_of_reads_nil rfl
  | printText short => exact closed_of_reads_nil rfl

theorem LowersReturn.closed {value : Option Expr} {ops : List Op}
    (h : LowersReturn scope s value ops s') : (ofOps ops).Closed := by
  cases h with
  | value declared value reads =>
    rw [ofOps_append]
    exact value.supplies.use rfl (by simp [Op.operands])
  | nothing declared => exact closed_of_reads_nil rfl

/-- A block reads only registers that it writes. -/
theorem LowersBlock.closed {block : List Statement} {flow : Flow} {ops : List Op}
    (h : LowersBlock scope s block flow ops s') : (ofOps ops).Closed := by
  induction h with
  | nil s => exact closed_of_reads_nil rfl
  | simple first tail ih =>
    rw [ofOps_append]
    exact first.closed.append ih
  | ret last => exact last.closed
  | branchReturns condition reads thenArm elseArm ihThen ihElse =>
    have htested := condition.supplies.closed.use (g := { reads := [_] }) condition.supplies.mem
    rw [ofOps_append, ofOps_branch, ← append_assoc, ← append_assoc]
    exact (htested.append ihThen).append ihElse
  | branch condition reads thenArm elseArm joins tail ihThen ihElse ih =>
    have htested := condition.supplies.closed.use (g := { reads := [_] }) condition.supplies.mem
    rw [ofOps_append, ofOps_cons, ofOps_branch, ← append_assoc, ← append_assoc, ← append_assoc]
    exact ((htested.append ihThen).append ihElse).append ih
  | @loop s s₁ s₂ s₃ s' c r body rest bodyFlow flow condOps bodyOps restOps condition reads inner
      tail ihInner ih =>
    have htested := condition.supplies.closed.use (g := { reads := [r] }) condition.supplies.mem
    rw [ofOps_cons, ofOps_loop]
    refine Closed.append (Closed.append (fun other hother => ?_) ihInner) ih
    -- the condition is computed behind the place where the loop reads it
    have hreads : other ∈ (ofOps condOps ++ { reads := [r] }).reads := by
      simpa [or_comm] using hother
    simpa using htested other hreads

namespace LocalTable

variable {t t' : LocalTable} {name : String} {ty : Scalar}

def names (t : LocalTable) : List String := t.declared.map (·.name)

/-- The names of the parameters. -/
def paramNames (t : LocalTable) : List String :=
  (t.declared.filter (·.isParam)).map (·.name)

theorem names_eq (t : LocalTable) : t.names = t.slots.map (·.name) := by
  simp [names, declared, Function.comp_def]

theorem paramNames_eq (t : LocalTable) :
    t.paramNames = (t.slots.filter (·.isParam)).map (·.name) := by
  simp [paramNames, declared, List.filter_map, Function.comp_def]

/-- All slots have identifiers as names. -/
def Identifiers (t : LocalTable) : Prop := ∀ name ∈ t.names, Name.isIdentifier name = true

theorem Identifiers.addSlot {slot : LocalSlot} {index : NameTable Nat} {assigned : SlotSet}
    (h : t.Identifiers) (hslot : Name.isIdentifier slot.name = true) :
    Identifiers { t with slots := t.slots ++ [slot], index, assigned } := by
  simp only [Identifiers, names_eq] at h ⊢
  simpa [or_imp, forall_and, hslot] using h

end LocalTable

/-- Lowering a body keeps the names of locals identifiers, and adds no parameters. -/
structure Session.KeepsSlots (s s' : Session) : Prop where
  identifiers : s.locals.Identifiers → s'.locals.Identifiers
  params : s'.locals.paramNames = s.locals.paramNames

namespace Session

theorem keepsSlots_of_declared (h : s'.locals.declared = s.locals.declared) : s.KeepsSlots s' where
  identifiers := by simp [LocalTable.Identifiers, LocalTable.names, h]
  params := by simp [LocalTable.paramNames, h]

theorem Evaluates.keepsSlots (h : s.Evaluates s') : s.KeepsSlots s' :=
  keepsSlots_of_declared h.declared

theorem KeepsSlots.trans {s₁ : Session} (h : s.KeepsSlots s₁) (h' : s₁.KeepsSlots s') :
    s.KeepsSlots s' :=
  ⟨h'.identifiers ∘ h.identifiers, h'.params.trans h.params⟩

theorem keepsSlots_relation (scope : Scope) : StepRelation scope KeepsSlots where
  toExprRelation := relation_of_evaluates scope .trans Evaluates.keepsSlots
  restored s slots := keepsSlots_of_declared rfl
  assignLocal h := by
    obtain ⟨_, _, hassign, rfl⟩ := Lower.assignLocal_ok.1 h
    obtain ⟨_, _, _, _, rfl⟩ := LocalTable.assign_ok hassign
    exact keepsSlots_of_declared rfl
  declareLocal h := by
    obtain ⟨_, hdeclare, rfl⟩ := Lower.declareLocal_ok.1 h
    rcases LocalTable.declareLocal_ok hdeclare with ⟨_, _, _, _, _, rfl⟩ | ⟨hnew, rfl⟩
    · exact keepsSlots_of_declared rfl
    · have hname := LocalTable.isIdentifier_of_declareLocal hdeclare hnew
      refine ⟨(·.addSlot hname), ?_⟩
      simp [LocalTable.paramNames_eq]
  addString _ _ _ := keepsSlots_of_declared rfl

end Session

/-- Parameters get slots in order. -/
theorem LowersParams.paramNames_eq {params : List Parameter} (h : LowersParams s params s') :
    s'.locals.paramNames = s.locals.paramNames ++ params.map (·.name) := by
  induction h with
  | nil s => simp
  | @cons s s₁ s' param rest declares tail ih =>
    obtain ⟨_, hdeclare, rfl⟩ := Lower.declareParam_ok.1 declares
    obtain ⟨_, rfl⟩ := LocalTable.declareParam_ok hdeclare
    rw [ih]
    simp [LocalTable.paramNames_eq, Session.reserved]

theorem LowersParams.identifiers {params : List Parameter} (h : LowersParams s params s') :
    s.locals.Identifiers → s'.locals.Identifiers := by
  induction h with
  | nil s => exact id
  | @cons s s₁ s' param rest declares tail ih =>
    obtain ⟨_, hdeclare, rfl⟩ := Lower.declareParam_ok.1 declares
    have hname := LocalTable.isIdentifier_of_declareParam hdeclare
    obtain ⟨_, rfl⟩ := LocalTable.declareParam_ok hdeclare
    intro hidentifiers
    exact ih (hidentifiers.addSlot hname)

namespace RegisterTable

variable {t : RegisterTable} {row : RegisterRow} {r : Register}

/-- In a numbered table the rows are found by their registers. -/
theorem row?_of_mem (h : t.Numbered) (hrow : row ∈ t.rows) : t.row? row.register = some row := by
  obtain ⟨n, hn, rfl⟩ := List.mem_iff_getElem.1 hrow
  have hnumber : t.rows[n].register.number = n + 1 := by
    have hat := congrArg (·[n]?) h
    simpa [List.getElem?_eq_getElem hn, hn, size, Nat.add_comm] using hat
  simp [row?, hnumber, List.getElem?_eq_getElem hn]

theorem isRead_iff (h : t.Numbered) (hrow : row ∈ t.rows) :
    t.IsRead row.register ↔ row.read = true := by
  simp [IsRead, row?_of_mem h hrow]

/-- Registers that are written are listed in increasing order. -/
theorem pairwise_written (h : t.Numbered) :
    t.written.Pairwise fun r r' => r.number < r'.number := by
  have hall : t.rows.Pairwise fun row row' => row.register.number < row'.register.number := by
    rw [← List.pairwise_map, h]
    exact List.pairwise_lt_range'
  exact (hall.filter _).map _ fun _ _ hlt => hlt

theorem mem_written (h : t.Numbered) (hrow : row ∈ t.rows) :
    row.register ∈ t.written ↔ row.written = true := by
  simp only [written, List.mem_map, List.mem_filter]
  constructor
  · rintro ⟨other, ⟨hother, hwritten⟩, heq⟩
    have hsame := row?_of_mem h hother
    rw [heq, row?_of_mem h hrow, Option.some.injEq] at hsame
    exact hsame ▸ hwritten
  · intro hwritten
    exact ⟨row, ⟨hrow, hwritten⟩, rfl⟩

end RegisterTable

theorem LocalTable.Indexed.isRead_iff {t : LocalTable} {slot : LocalSlot} (h : t.Indexed)
    (hslot : slot ∈ t.slots) : t.IsRead slot.name ↔ slot.read = true := by
  constructor
  · rintro ⟨other, hother, hname, hread⟩
    exact List.inj_on_of_nodup_map h.nodup_names hother hslot hname ▸ hread
  · intro hread
    exact ⟨slot, hslot, rfl, hread⟩

/-- The tables say what the operations do. Registers are listed in order, and written in
order, each by one operation; the marks of registers and locals are exact; and whatever
the operations mention is listed. -/
structure LoweredFunction.TablesExact (code : LoweredFunction) : Prop where
  numbered : code.registers.map (·.register.number) = List.range' 1 code.registers.length
  increasing : (Op.dests code.ops).Pairwise fun r r' => r.number < r'.number
  written : ∀ row ∈ code.registers, row.written = true ↔ row.register ∈ Op.dests code.ops
  read : ∀ row ∈ code.registers, row.read = true ↔ row.register ∈ Op.reads code.ops
  listed : ∀ r ∈ Op.dests code.ops ++ Op.reads code.ops, r ∈ code.registers.map (·.register)
  loaded : ∀ slot ∈ code.locals, slot.read = true ↔ slot.name ∈ Op.loads code.ops
  declared : ∀ name ∈ Op.loads code.ops ++ Op.stores code.ops,
    name ∈ code.locals.map (·.name)

namespace TypeContext.Types

variable {code : LoweredFunction} {Calls : Symbol → Signature → Prop} {ops : List Op}

/-- Well-typed operations mention locals of the function. -/
theorem mem_locals (h : (code.types Calls).Types ops) {name : String}
    (hname : name ∈ Op.loads ops ++ Op.stores ops) : name ∈ code.locals.map (·.name) := by
  have hfound : ∃ ty, code.localType? name = some ty := by
    rcases List.mem_append.1 hname with hname | hname
    · obtain ⟨op, hop, hloaded⟩ := List.mem_filterMap.1 hname
      have htyped := h op hop
      cases op <;> simp only [Op.loaded?, Option.some.injEq, reduceCtorEq] at hloaded
      obtain ⟨ty, hty, _⟩ := htyped
      exact ⟨ty, hloaded ▸ hty⟩
    · obtain ⟨op, hop, hstored⟩ := List.mem_filterMap.1 hname
      have htyped := h op hop
      cases op <;> simp only [Op.stored?, Option.some.injEq, reduceCtorEq] at hstored
      obtain ⟨_, ty, _, hty⟩ := htyped
      exact ⟨ty, hstored ▸ hty⟩
  obtain ⟨ty, hty⟩ := hfound
  obtain ⟨slot, hslot, _⟩ := Option.map_eq_some_iff.1 hty
  exact List.mem_map.2 ⟨slot, List.mem_of_find?_eq_some hslot, by simpa using List.find?_some hslot⟩

end TypeContext.Types

namespace LowersFunction

variable {shared : Shared} {function : SourceFunction} {lowering : FunctionLowering}

/-- Only registers that are written are read. -/
theorem reads_written (h : LowersFunction shared function lowering) :
    ∀ r ∈ Op.reads lowering.function.ops, r ∈ Op.dests lowering.function.ops := by
  cases h with
  | intro named params body returns => exact body.closed

/-- The names of the slots differ, and those of parameters are the parameters. -/
theorem slots (h : LowersFunction shared function lowering) :
    (lowering.function.locals.map (·.name)).Nodup
      ∧ (lowering.function.locals.filter (·.isParam)).map (·.name)
        = lowering.function.params.map (·.name) := by
  cases h with
  | @intro symbol s s' flow ops named params body returns =>
    have hkeeps := (Session.keepsSlots_relation { shared, function }).lowersBlock body
    have hparams := hkeeps.params.trans params.paramNames_eq
    rw [LocalTable.paramNames_eq, LocalTable.paramNames_eq] at hparams
    exact ⟨s'.indexed.nodup_names, by simpa [SourceFunction.session] using hparams⟩

theorem isIdentifier_slot (h : LowersFunction shared function lowering) :
    ∀ slot ∈ lowering.function.locals, Name.isIdentifier slot.name = true := by
  cases h with
  | @intro symbol s s' flow ops named params body returns =>
    have hkeeps := (Session.keepsSlots_relation { shared, function }).lowersBlock body
    have hidentifiers := hkeeps.identifiers (params.identifiers (by
      simp [LocalTable.Identifiers, LocalTable.names_eq, SourceFunction.session]))
    intro slot hslot
    exact hidentifiers slot.name (by simpa [LocalTable.names_eq] using ⟨slot, hslot, rfl⟩)

theorem not_isRead_session (function : SourceFunction) (r : Register) :
    ¬function.session.registers.IsRead r := by
  obtain ⟨_ | n⟩ := r <;> simp [RegisterTable.IsRead, RegisterTable.row?, SourceFunction.session]

theorem tablesExact (h : LowersFunction shared function lowering) :
    lowering.function.TablesExact := by
  have hreads := h.reads_written
  have htyped := h.typed
  cases h with
  | @intro symbol s s' flow ops named params body returns =>
    have hrecords := params.records.after body.records
    have hnumbered : s'.registers.Numbered := body.extends.numbered (params.extends.numbered rfl)
    have hwritten : s'.registers.written = Op.dests ops := hrecords.written
    have hlisted : ∀ r ∈ Op.dests ops, r ∈ s'.registers.rows.map (·.register) := by
      intro r hr
      rw [← hwritten] at hr
      obtain ⟨row, hrow, rfl⟩ := List.mem_map.1 hr
      exact List.mem_map_of_mem (List.mem_filter.1 hrow).1
    constructor
    · exact hnumbered
    · exact hwritten ▸ RegisterTable.pairwise_written hnumbered
    · intro row hrow
      rw [← RegisterTable.mem_written hnumbered hrow, hwritten]
    · intro row hrow
      rw [← RegisterTable.isRead_iff hnumbered hrow, hrecords.read]
      exact or_iff_right (not_isRead_session function row.register)
    · intro r hr
      exact hlisted r ((List.mem_append.1 hr).elim id (hreads r))
    · intro slot hslot
      rw [← s'.indexed.isRead_iff hslot, hrecords.loaded]
      exact or_iff_right (by simp [LocalTable.IsRead, SourceFunction.session])
    · exact fun name => htyped.mem_locals

end LowersFunction

end ScalarC
