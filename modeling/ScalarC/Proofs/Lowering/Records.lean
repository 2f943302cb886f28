import ScalarC.Proofs.Lowering.Growth
import ScalarC.Proofs.OpTree

/-!
# The tables record the operations

Lowering sets the marks of its tables apart from the operations they are about: a
register is marked as written when it is handed out, and as read before the operation
that uses it is complete. Here the two are shown to agree. `Session.Records s f s'` says
that the step from `s` to `s'` marks exactly what operations of the footprint `f` do, and
every derivation of lowered code records the operations it yields.
-/

namespace ScalarC

namespace RegisterTable

variable {t t' : RegisterTable} {r : Register}

/-- The registers that are marked as written, in order. -/
def written (t : RegisterTable) : List Register :=
  (t.rows.filter (·.written)).map (·.register)

/-- The register is marked as read. -/
def IsRead (t : RegisterTable) (r : Register) : Prop :=
  ∃ row, t.row? r = some row ∧ row.read = true

@[simp] theorem written_addWritten (t : RegisterTable) (ty : Scalar) :
    (t.addWritten ty).written = t.written ++ [⟨t.size + 1⟩] := by
  simp [written, addWritten]

@[simp] theorem written_allocate (t : RegisterTable) (ty : Scalar) :
    (t.allocate ty).2.written = t.written := by
  simp [written, allocate]

theorem written_markRead? (h : t.markRead? r = some t') : t'.written = t.written := by
  obtain ⟨n, _, _, rfl⟩ := markRead?_eq_some h
  -- the list does not depend on the read marks, and marking changes nothing else
  have hview : ∀ t : RegisterTable, t.written
      = ((t.rows.map fun row => { row with read := false }).filter (·.written)).map
        (·.register) := by
    intro t
    simp [written, List.filter_map, Function.comp_def]
  rw [hview, hview, map_modify_eq]
  intro row
  rfl

/-- A row that is added unread changes no read mark. -/
theorem isRead_append {row : RegisterRow} (hrow : row.read = false) :
    IsRead { rows := t.rows ++ [row] } r ↔ t.IsRead r := by
  obtain ⟨_ | n⟩ := r
  · simp [IsRead, row?]
  · simp only [IsRead, row?]
    by_cases hn : n < t.rows.length
    · rw [List.getElem?_append_left hn]
    · rw [List.getElem?_append_right (by omega), List.getElem?_eq_none (Nat.not_lt.1 hn)]
      constructor
      · rintro ⟨found, hfound, hread⟩
        obtain rfl := List.mem_singleton.1 (List.mem_of_getElem? hfound)
        simp [hrow] at hread
      · simp

theorem isRead_markRead? (h : t.markRead? r = some t') (other : Register) :
    t'.IsRead other ↔ t.IsRead other ∨ other = r := by
  obtain ⟨n, hn, hlt, rfl⟩ := markRead?_eq_some h
  obtain ⟨number⟩ := r
  obtain rfl : number = n + 1 := hn
  obtain ⟨_ | m⟩ := other
  · simp [IsRead, row?]
  · simp only [IsRead, row?, List.getElem?_modify, Register.mk.injEq, Nat.add_right_cancel_iff]
    by_cases heq : n = m
    · subst heq
      simp [List.getElem?_eq_getElem hlt]
    · simp [heq, Ne.symm heq]

end RegisterTable

namespace LocalTable

variable {t t' : LocalTable} {name : String} {ty : Scalar}

/-- The local is marked as read. -/
def IsRead (t : LocalTable) (name : String) : Prop :=
  ∃ slot ∈ t.slots, slot.name = name ∧ slot.read = true

theorem Indexed.isRead_read (h : t.Indexed) (hread : t.read name = .ok (ty, t'))
    (other : String) : t'.IsRead other ↔ t.IsRead other ∨ other = name := by
  obtain ⟨slot, i, hslot, _, _, rfl⟩ := read_ok hread
  obtain ⟨hat, rfl⟩ := h.slot?_eq_some_iff.1 hslot
  simp only [IsRead, List.mem_iff_getElem?, List.getElem?_modify]
  constructor
  · rintro ⟨found, ⟨j, hj⟩, rfl, hread⟩
    by_cases heq : i = j
    · subst heq
      rw [hat] at hj
      simp only [if_true, Option.map_eq_map, Option.map_some, Option.some.injEq] at hj
      subst hj
      exact .inr rfl
    · simp only [heq, if_false, id_map'] at hj
      exact .inl ⟨found, ⟨j, hj⟩, rfl, hread⟩
  · rintro (⟨found, ⟨j, hj⟩, rfl, hread⟩ | rfl)
    · by_cases heq : i = j
      · exact ⟨{ found with read := true }, ⟨j, by simp [hj, heq]⟩, rfl, rfl⟩
      · exact ⟨found, ⟨j, by simp [hj, heq]⟩, rfl, hread⟩
    · exact ⟨{ slot with read := true }, ⟨i, by simp [hat]⟩, rfl, rfl⟩

/-- A slot that is added unread changes no read mark. -/
theorem isRead_append {slot : LocalSlot} {index : NameTable Nat} {assigned : SlotSet}
    (hslot : slot.read = false) :
    IsRead { t with slots := t.slots ++ [slot], index, assigned } name ↔ t.IsRead name := by
  simp [IsRead, or_and_right, exists_or, hslot]

end LocalTable

namespace Session

/-- The step from `s` to `s'` marks what operations of the footprint do: registers as
written in the same order, registers and locals as read, and string constants by their
numbers. -/
structure Records (s : Session) (f : Footprint) (s' : Session) : Prop where
  written : s'.registers.written = s.registers.written ++ f.dests
  read : ∀ r, s'.registers.IsRead r ↔ s.registers.IsRead r ∨ r ∈ f.reads
  loaded : ∀ name, s'.locals.IsRead name ↔ s.locals.IsRead name ∨ name ∈ f.loads
  strings : List.range s'.strings.length = List.range s.strings.length ++ f.strings

variable {s s₁ s' : Session} {f g : Footprint}

/-- Steps that leave the tables as they are. -/
theorem records_of_eq (registers : s'.registers = s.registers)
    (slots : s'.locals.slots = s.locals.slots) (strings : s'.strings = s.strings) :
    s.Records {} s' where
  written := by simp [registers]
  read := by simp [registers]
  loaded := by simp [LocalTable.IsRead, slots]
  strings := by simp [strings]

namespace Records

theorem refl (s : Session) : s.Records {} s :=
  records_of_eq rfl rfl rfl

theorem trans (h : s.Records f s₁) (h' : s₁.Records g s') : s.Records (f ++ g) s' where
  written := by simp [h'.written, h.written]
  read r := by simp [h'.read, h.read, or_assoc]
  loaded name := by simp [h'.loaded, h.loaded, or_assoc]
  strings := by simp [h'.strings, h.strings]

/-- A silent step before. -/
theorem after (h : s.Records {} s₁) (h' : s₁.Records f s') : s.Records f s' :=
  h.trans h'

/-- A silent step behind. -/
theorem before (h : s.Records f s₁) (h' : s₁.Records {} s') : s.Records f s' := by
  simpa using h.trans h'

/-- The order of reads does not count. -/
theorem congr (h : s.Records f s') (hdests : f.dests = g.dests)
    (hreads : ∀ r, r ∈ f.reads ↔ r ∈ g.reads) (hloads : f.loads = g.loads)
    (hstrings : f.strings = g.strings) : s.Records g s' where
  written := hdests ▸ h.written
  read r := by rw [h.read, hreads]
  loaded := hloads ▸ h.loaded
  strings := hstrings ▸ h.strings

end Records

theorem records_defined (s : Session) (ty : Scalar) :
    s.Records { dests := [s.next] } (s.defined ty) where
  written := by simp [defined, next]
  read r := by simp [defined, RegisterTable.addWritten, RegisterTable.isRead_append]
  loaded := by simp [defined]
  strings := by simp [defined]

theorem records_reserved (s : Session) (ty : Scalar) : s.Records {} (s.reserved ty) where
  written := by simp [reserved]
  read r := by simp [reserved, RegisterTable.allocate, RegisterTable.isRead_append]
  loaded := by simp [reserved]
  strings := by simp [reserved]

theorem records_restored (s : Session) (slots : SlotSet) : s.Records {} (s.restored slots) :=
  records_of_eq rfl rfl rfl

end Session

namespace Lower

variable {s s' : Session} {name : String} {ty : Scalar} {r : Register} {u : Unit}

theorem markRead_records (h : markRead r s = .ok (u, s')) : s.Records { reads := [r] } s' := by
  obtain ⟨table, hmark, rfl⟩ := markRead_ok.1 h
  constructor
  · simp [RegisterTable.written_markRead? hmark]
  · intro other
    simp [RegisterTable.isRead_markRead? hmark]
  · simp
  · simp

theorem readLocal_records (h : readLocal name s = .ok (ty, s')) :
    s.Records { loads := [name] } s' := by
  obtain ⟨table, hread, rfl⟩ := readLocal_ok.1 h
  constructor
  · simp
  · simp
  · intro other
    simp [s.indexed.isRead_read hread]
  · simp

theorem assignLocal_records (h : assignLocal name s = .ok (u, s')) : s.Records {} s' := by
  obtain ⟨ty, table, hassign, rfl⟩ := assignLocal_ok.1 h
  obtain ⟨_, _, _, _, rfl⟩ := LocalTable.assign_ok hassign
  exact Session.records_of_eq rfl rfl rfl

theorem declareLocal_records (h : declareLocal name ty s = .ok (u, s')) : s.Records {} s' := by
  obtain ⟨table, hdeclare, rfl⟩ := declareLocal_ok.1 h
  rcases LocalTable.declareLocal_ok hdeclare with ⟨_, _, _, _, _, rfl⟩ | ⟨_, rfl⟩
  · exact Session.records_of_eq rfl rfl rfl
  · exact ⟨by simp, by simp, fun other => by simp [LocalTable.isRead_append], by simp⟩

theorem declareParam_records (h : declareParam name ty s = .ok (u, s')) : s.Records {} s' := by
  obtain ⟨table, hdeclare, rfl⟩ := declareParam_ok.1 h
  obtain ⟨_, rfl⟩ := LocalTable.declareParam_ok hdeclare
  exact ⟨by simp, by simp, fun other => by simp [LocalTable.isRead_append], by simp⟩

end Lower

namespace Scope

variable {scope : Scope} {s s' : Session}

theorem literalValue_records {value n : Int} {ty : Scalar}
    (h : scope.literalValue value ty s = .ok (n, s')) : s.Records {} s' := by
  obtain ⟨_, diagnostics, rfl⟩ := literalValue_ok h
  exact Session.records_of_eq rfl rfl rfl

theorem lowerCallee_records {callee : Callee} {symbol : Symbol} {signature : Signature}
    (h : scope.lowerCallee callee s = .ok ((symbol, signature), s')) : s.Records {} s' := by
  obtain ⟨_, _, ⟨_, rfl⟩ | ⟨_, rfl⟩⟩ := lowerCallee_ok h
  · exact .refl _
  · exact Session.records_of_eq rfl rfl rfl

theorem resultRegister_dropped_records {returnType : Option Scalar} {dest : Option Register}
    (h : resultRegister returnType false s = .ok (dest, s')) : s.Records {} s' := by
  cases returnType with
  | none =>
    simp only [resultRegister, Lower.pure_ok] at h
    obtain ⟨_, rfl⟩ := h
    exact .refl s
  | some ty =>
    simp only [resultRegister, Bool.false_eq_true, if_false, Lower.bind_ok, Lower.reserve_ok,
      Lower.pure_ok] at h
    obtain ⟨_, _, ⟨_, rfl⟩, _, rfl⟩ := h
    exact s.records_reserved ty

end Scope

open Footprint (ofOps)

/-- Copying arguments reads the arguments, and marks the copies as read for the call. -/
theorem BindsArgs.records {s s' : Session} {sources bound : List Register}
    {types : List Scalar} {copies : List Op} (h : BindsArgs s sources types bound copies s') :
    s.Records (ofOps copies ++ { reads := bound }) s' := by
  induction h with
  | nil s => exact .refl s
  | @cons s s₁ s₂ s' src ty sources bound types copies readSource readCopy tail ih =>
    have hall := (Lower.markRead_records readSource).trans ((s₁.records_defined ty).trans
      ((Lower.markRead_records readCopy).trans ih))
    rw [Footprint.ofOps_cons]
    refine hall.congr rfl (fun r => ?_) rfl rfl
    show r ∈ src :: s₁.next :: (Op.reads copies ++ bound)
      ↔ r ∈ src :: Op.reads copies ++ s₁.next :: bound
    simp only [List.mem_cons, List.mem_append, List.cons_append]
    exact or_congr_right or_left_comm

theorem LowersExprs.records {scope : Scope} {s s' : Session} {es : List Expr}
    {registers : List Register} {ops : List Op} (h : LowersExprs scope s es registers ops s') :
    s.Records (ofOps ops) s' := by
  induction h with
  | nil s => exact .refl s
  | literal value tail ih =>
    rw [Footprint.ofOps_cons]
    exact (Scope.literalValue_records value).after ((Session.records_defined _ _).trans ih)
  | constant found value tail ih =>
    rw [Footprint.ofOps_cons]
    exact (Scope.literalValue_records value).after ((Session.records_defined _ _).trans ih)
  | var read tail ih =>
    rw [Footprint.ofOps_cons]
    exact ((Lower.readLocal_records read).trans (Session.records_defined _ _)).trans ih
  | binary operands readLeft readRight result tail ihOperands ih =>
    rw [Footprint.ofOps_append, Footprint.ofOps_cons]
    exact ihOperands.trans ((((Lower.markRead_records readLeft).trans
      (Lower.markRead_records readRight)).trans (Session.records_defined _ _)).trans ih)
  | cast operand readSource tail ihOperand ih =>
    rw [Footprint.ofOps_append, Footprint.ofOps_cons]
    exact ihOperand.trans (((Lower.markRead_records readSource).trans
      (Session.records_defined _ _)).trans ih)
  | @call s s₁ s₂ s₃ s' callee args rest symbol signature sources bound registers ty argOps copies
      ops target arity arguments binding returns tail ihArguments ih =>
    have hall := (Scope.lowerCallee_records target).after
      (ihArguments.trans (binding.records.trans ((s₃.records_defined ty).trans ih)))
    rw [Footprint.ofOps_append, Footprint.ofOps_append, Footprint.ofOps_cons, Footprint.ofOps_call]
    simpa only [Footprint.append_assoc, Option.toList_some] using hall

theorem LowersSimple.records {scope : Scope} {s s' : Session} {statement : Statement}
    {ops : List Op} (h : LowersSimple scope s statement ops s') : s.Records (ofOps ops) s' := by
  cases h with
  | declare declares =>
    exact (Lower.declareLocal_records declares).after (Session.records_reserved _ _)
  | declareInit declares value assigns reads =>
    rw [Footprint.ofOps_append]
    exact (Lower.declareLocal_records declares).after ((Session.records_reserved _ _).after
      ((value.records.before (Lower.assignLocal_records assigns)).trans
        (Lower.markRead_records reads)))
  | assign known value assigns reads =>
    rw [Footprint.ofOps_append]
    exact (value.records.before (Lower.assignLocal_records assigns)).trans
      (Lower.markRead_records reads)
  | eval noCall value => exact value.records
  | evalCall target arity arguments binding dropped =>
    have hall := (Scope.lowerCallee_records target).after (arguments.records.trans
      (binding.records.before (Scope.resultRegister_dropped_records dropped)))
    rw [Footprint.ofOps_append, Footprint.ofOps_append, Footprint.ofOps_call, Footprint.append_assoc]
    simpa using hall
  | printValue value typed printer reads =>
    rw [Footprint.ofOps_append]
    exact value.records.trans (Lower.markRead_records reads)
  | printChar value reads =>
    rw [Footprint.ofOps_append]
    exact value.records.trans (Lower.markRead_records reads)
  | printNewline => exact .refl s
  | printText short =>
    show s.Records { strings := [s.strings.length] } _
    exact ⟨by simp, by simp, by simp, by simp [List.range_succ]⟩

theorem LowersReturn.records {scope : Scope} {s s' : Session} {value : Option Expr}
    {ops : List Op} (h : LowersReturn scope s value ops s') : s.Records (ofOps ops) s' := by
  cases h with
  | value declared value reads =>
    rw [Footprint.ofOps_append]
    exact value.records.trans (Lower.markRead_records reads)
  | nothing declared => exact .refl s

/-- The operations of a block are recorded, at every depth. -/
theorem LowersBlock.records {scope : Scope} {s s' : Session} {block : List Statement}
    {flow : Flow} {ops : List Op} (h : LowersBlock scope s block flow ops s') :
    s.Records (ofOps ops) s' := by
  induction h with
  | nil s => exact .refl s
  | simple first tail ih =>
    rw [Footprint.ofOps_append]
    exact first.records.trans ih
  | ret last => exact last.records
  | branchReturns condition reads thenArm elseArm ihThen ihElse =>
    rw [Footprint.ofOps_append, Footprint.ofOps_branch]
    exact condition.records.trans (((Lower.markRead_records reads).trans
      (ihThen.before (Session.records_restored _ _))).trans ihElse)
  | branch condition reads thenArm elseArm joins tail ihThen ihElse ih =>
    rw [Footprint.ofOps_append, Footprint.ofOps_cons, Footprint.ofOps_branch]
    exact condition.records.trans ((((Lower.markRead_records reads).trans
      (ihThen.before (Session.records_restored _ _))).trans
        (ihElse.before (Session.records_restored _ _))).trans ih)
  | @loop s s₁ s₂ s₃ s' c r body rest bodyFlow flow condOps bodyOps restOps condition reads inner
      tail ihInner ih =>
    -- the condition is read behind the operations that compute it
    have hpass := (condition.records.trans (Lower.markRead_records reads)).trans
      (ihInner.before (s₃.records_restored s.locals.assigned))
    rw [Footprint.ofOps_cons, Footprint.ofOps_loop]
    refine Session.Records.trans (hpass.congr (by simp) (fun other => ?_) (by simp) (by simp)) ih
    simp only [Footprint.reads_append, List.mem_append, or_assoc, or_left_comm]

/-- Parameters are declared without an operation. -/
theorem LowersParams.records {s s' : Session} {params : List Parameter}
    (h : LowersParams s params s') : s.Records {} s' := by
  induction h with
  | nil s => exact .refl s
  | cons declares tail ih =>
    exact (Lower.declareParam_records declares).after
      ((Session.records_reserved _ _).after ih)

end ScalarC
