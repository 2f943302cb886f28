import ScalarC.Lowering.Unit

/-!
# Successful lowering steps

A chain of steps succeeds exactly when each step does, from the session that the
step before left behind. The lemmas of this module say what each primitive step
does to the session when it succeeds, so that later proofs follow sessions and
never open the monad.
-/

namespace ScalarC

section Except

variable {ε δ α β : Type}

theorem bind_eq_ok {x : Except ε α} {f : α → Except ε β} {b : β} :
    (x >>= f) = .ok b ↔ ∃ a, x = .ok a ∧ f a = .ok b := by
  cases x <;> simp [bind, Except.bind]

@[simp] theorem pure_eq_ok {a b : α} : (pure a : Except ε α) = .ok b ↔ a = b := by
  simp [pure, Except.pure]

@[simp] theorem throw_eq_ok {e : ε} {a : α} : (throw e : Except ε α) = .ok a ↔ False := by
  simp [throw, throwThe, MonadExceptOf.throw]

theorem map_eq_ok {x : Except ε α} {f : α → β} {b : β} :
    x.map f = .ok b ↔ ∃ a, x = .ok a ∧ f a = b := by
  cases x <;> simp [Except.map]

@[simp] theorem mapError_eq_ok {x : Except ε α} {f : ε → δ} {a : α} :
    x.mapError f = .ok a ↔ x = .ok a := by
  cases x with
  | error e =>
    show Except.error (f e) = .ok a ↔ _
    simp
  | ok b =>
    show Except.ok b = .ok a ↔ _
    simp

theorem exists_ok_of_isOk {x : Except ε α} (h : x.isOk) : ∃ a, x = .ok a := by
  cases x with
  | error e => cases h
  | ok a => exact ⟨a, rfl⟩

end Except

namespace RegisterTable

/-- Hands out the next register as one that an operation writes. -/
def addWritten (table : RegisterTable) (ty : Scalar) : RegisterTable :=
  { rows := table.rows ++ [{ register := ⟨table.size + 1⟩, ty, written := true }] }

/-- A fresh register can always be marked as written. -/
theorem markWritten?_allocate (table : RegisterTable) (ty : Scalar) :
    (table.allocate ty).2.markWritten? (table.allocate ty).1 = some (table.addWritten ty) := by
  simp only [allocate, markWritten?, update?, size, List.length_append, List.length_singleton,
    Nat.lt_add_one, if_true, addWritten]
  rw [List.modify_eq_take_cons_drop (by simp)]
  simp

end RegisterTable

namespace Session

/-- The register that is handed out next. -/
def next (s : Session) : Register := ⟨s.registers.size + 1⟩

/-- The session after the next register was handed out to be written. -/
def defined (s : Session) (ty : Scalar) : Session :=
  { s with registers := s.registers.addWritten ty }

/-- The session after the next register was handed out and left unwritten. -/
def reserved (s : Session) (ty : Scalar) : Session :=
  { s with registers := (s.registers.allocate ty).2 }

end Session

namespace Lower

variable {α β : Type} {s s' : Session}

theorem bind_ok {x : Lower α} {f : α → Lower β} {b : β} :
    (x >>= f) s = .ok (b, s') ↔ ∃ a s₁, x s = .ok (a, s₁) ∧ f a s₁ = .ok (b, s') := by
  simp only [bind, StateT.bind, Except.bind]
  cases h : x s with
  | error e => simp
  | ok result =>
    constructor
    · intro hf
      exact ⟨_, _, rfl, hf⟩
    · rintro ⟨a, s₁, heq, hf⟩
      cases heq
      exact hf

@[simp] theorem pure_ok {a b : α} :
    (pure a : Lower α) s = .ok (b, s') ↔ a = b ∧ s = s' := by
  show Except.ok (a, s) = .ok (b, s') ↔ _
  simp

@[simp] theorem refuse_ok {cause : CompileError} {a : α} :
    (refuse cause : Lower α) s = .ok (a, s') ↔ False := by
  simp [refuse]

@[simp] theorem lift_ok {result : Except CompileError α} {a : α} :
    lift result s = .ok (a, s') ↔ result = .ok a ∧ s = s' := by
  cases result <;> simp [lift]

@[simp] theorem get_ok {a : Session} :
    (get : Lower Session) s = .ok (a, s') ↔ s = a ∧ s = s' := by
  simp [get, getThe, MonadStateOf.get, StateT.get, pure, Except.pure]

@[simp] theorem modify_ok {f : Session → Session} {u : Unit} :
    (modify f : Lower Unit) s = .ok (u, s') ↔ f s = s' := by
  show Except.ok ((), f s) = .ok (u, s') ↔ _
  simp

@[simp] theorem reserve_ok {ty : Scalar} {r : Register} :
    reserve ty s = .ok (r, s') ↔ s.next = r ∧ s.reserved ty = s' := by
  simp [reserve, Session.next, Session.reserved, RegisterTable.allocate]

@[simp] theorem define_ok {ty : Scalar} {r : Register} :
    define ty s = .ok (r, s') ↔ s.next = r ∧ s.defined ty = s' := by
  have hmark := RegisterTable.markWritten?_allocate s.registers ty
  simp only [define, bind_ok, reserve_ok, pure_ok]
  constructor
  · rintro ⟨r, s₁, ⟨rfl, rfl⟩, _, s₂, hwrite, rfl, rfl⟩
    simp only [markWritten, Session.reserved, Session.next] at hwrite
    rw [show (⟨s.registers.size + 1⟩ : Register) = (s.registers.allocate ty).1 from rfl,
      hmark] at hwrite
    cases hwrite
    exact ⟨rfl, rfl⟩
  · rintro ⟨rfl, rfl⟩
    refine ⟨_, _, ⟨rfl, rfl⟩, (), s.defined ty, ?_, rfl, rfl⟩
    simp only [markWritten, Session.reserved, Session.next]
    rw [show (⟨s.registers.size + 1⟩ : Register) = (s.registers.allocate ty).1 from rfl, hmark]
    rfl

@[simp] theorem markRead_ok {r : Register} {u : Unit} :
    markRead r s = .ok (u, s') ↔
      ∃ table, s.registers.markRead? r = some table ∧ { s with registers := table } = s' := by
  simp only [markRead]
  cases s.registers.markRead? r <;> simp

@[simp] theorem typeOf_ok {r : Register} {ty : Scalar} :
    typeOf r s = .ok (ty, s') ↔ s.registers.typeOf? r = some ty ∧ s = s' := by
  simp only [typeOf]
  cases s.registers.typeOf? r <;> simp

/-- A step on the local table succeeds in the session where it does in the table. -/
theorem onLocals_ok {step : LocalStep α} {keeps : step.KeepsIndex} {a : α} :
    onLocals step keeps s = .ok (a, s') ↔
      ∃ table, ∃ h : step s.locals = .ok a table,
        { s with locals := table, indexed := keeps s.indexed h } = s' := by
  unfold onLocals
  split
  · rename_i b table h
    constructor
    · intro heq
      cases heq
      exact ⟨table, h, rfl⟩
    · rintro ⟨other, hother, rfl⟩
      cases h.symm.trans hother
      rfl
  · rename_i cause table h
    constructor
    · intro heq
      cases heq
    · rintro ⟨other, hother, _⟩
      cases h.symm.trans hother

@[simp] theorem readLocal_ok {name : String} {ty : Scalar} :
    readLocal name s = .ok (ty, s') ↔
      ∃ table, ∃ h : s.locals.read name = .ok (ty, table),
        { s with locals := table, indexed := s.indexed.read h } = s' := by
  simp only [readLocal, onLocals_ok, LocalTable.read, LocalStep.outcome_eq_ok]

@[simp] theorem assignLocal_ok {name : String} {u : Unit} :
    assignLocal name s = .ok (u, s') ↔
      ∃ ty table, ∃ h : s.locals.assign name = .ok (ty, table),
        { s with locals := table, indexed := s.indexed.assign h } = s' := by
  simp only [assignLocal, bind_ok, onLocals_ok, pure_ok, LocalTable.assign,
    LocalStep.outcome_eq_ok]
  constructor
  · rintro ⟨ty, _, ⟨table, hassign, rfl⟩, _, rfl⟩
    exact ⟨ty, table, hassign, rfl⟩
  · rintro ⟨ty, table, hassign, rfl⟩
    exact ⟨ty, _, ⟨table, hassign, rfl⟩, trivial, rfl⟩

@[simp] theorem declareLocal_ok {name : String} {ty : Scalar} {u : Unit} :
    declareLocal name ty s = .ok (u, s') ↔
      ∃ table, ∃ h : s.locals.declareLocal name ty = .ok table,
        { s with locals := table, indexed := s.indexed.declareLocal h } = s' := by
  simp only [declareLocal, onLocals_ok, LocalTable.declareLocal, LocalStep.map_outcome_eq_ok]

@[simp] theorem declareParam_ok {name : String} {ty : Scalar} {u : Unit} :
    declareParam name ty s = .ok (u, s') ↔
      ∃ table, ∃ h : s.locals.declareParam name ty = .ok table,
        { s with locals := table, indexed := s.indexed.declareParam h } = s' := by
  simp only [declareParam, onLocals_ok, LocalTable.declareParam, LocalStep.map_outcome_eq_ok]

@[simp] theorem assigned_ok {slots : SlotSet} :
    assigned s = .ok (slots, s') ↔ s.locals.assigned = slots ∧ s = s' := by
  simp only [assigned, bind_ok, get_ok, pure_ok]
  constructor
  · rintro ⟨_, _, ⟨rfl, rfl⟩, rfl, rfl⟩
    exact ⟨rfl, rfl⟩
  · rintro ⟨rfl, rfl⟩
    exact ⟨_, _, ⟨rfl, rfl⟩, rfl, rfl⟩

@[simp] theorem restoreAssigned_ok {slots : SlotSet} {u : Unit} :
    restoreAssigned slots s = .ok (u, s') ↔
      { s with locals := s.locals.restore slots } = s' := by
  simp [restoreAssigned]

@[simp] theorem addString_ok {text : String} {index : Nat} :
    addString text s = .ok (index, s') ↔
      s.strings.length = index ∧ { s with strings := s.strings ++ [text] } = s' := by
  simp only [addString, bind_ok, get_ok, modify_ok, pure_ok]
  constructor
  · rintro ⟨_, _, ⟨rfl, rfl⟩, _, _, rfl, rfl, rfl⟩
    exact ⟨rfl, rfl⟩
  · rintro ⟨rfl, rfl⟩
    exact ⟨_, _, ⟨rfl, rfl⟩, (), _, rfl, rfl, rfl⟩

end Lower

end ScalarC
