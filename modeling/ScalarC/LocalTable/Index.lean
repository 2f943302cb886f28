import ScalarC.LocalTable

/-!
# Steps on a local table

What each step on a local table does, when it succeeds and when it is refused, and that
every step keeps the index in agreement with the slots: it has exactly the names of the
slots, and gives the place of each.
-/

namespace ScalarC

/-- A change of one element that a view does not see leaves the view of the list. -/
theorem map_modify_eq {α β : Type} {f : α → β} {g : α → α} (h : ∀ a, f (g a) = f a)
    (l : List α) (n : Nat) : (l.modify n g).map f = l.map f := by
  induction l generalizing n with
  | nil => simp
  | cons a l ih =>
    cases n with
    | zero => simp [h]
    | succ n => simp [ih]

/-! ## Steps -/

namespace LocalStep

variable {t t' : LocalTable} {α β : Type} {cause : CompileError}

theorem bind_ok {x : LocalStep α} {f : α → LocalStep β} {a : α} (h : x t = .ok a t') :
    (x >>= f) t = f a t' := by
  simp only [bind, EStateM.bind, h]

theorem bind_error {x : LocalStep α} {f : α → LocalStep β} (h : x t = .error cause t') :
    (x >>= f) t = .error cause t' := by
  simp only [bind, EStateM.bind, h]

theorem get_bind (f : LocalTable → LocalStep α) : (get >>= f) t = f t t := rfl

theorem look_ok {f : LocalTable → Except CompileError α} {a : α} (h : f t = .ok a) :
    look f t = .ok a t := by
  rw [look, get_bind, h]
  rfl

theorem look_error {f : LocalTable → Except CompileError α} (h : f t = .error cause) :
    look f t = .error cause t := by
  rw [look, get_bind, h]
  rfl

theorem outcome_ok {step : LocalStep α} {a : α} (h : step t = .ok a t') :
    step.outcome t = .ok (a, t') := by
  rw [outcome, h]

theorem outcome_error {step : LocalStep α} (h : step t = .error cause t') :
    step.outcome t = .error cause := by
  rw [outcome, h]

theorem outcome_eq_ok {step : LocalStep α} {a : α} :
    step.outcome t = .ok (a, t') ↔ step t = .ok a t' := by
  unfold outcome
  cases step t <;> simp

theorem map_outcome_eq_ok {step : LocalStep Unit} :
    (step.outcome t).map (·.2) = .ok t' ↔ step t = .ok () t' := by
  unfold outcome
  cases step t <;> simp [Except.map]

variable (t) (name : String) (ty : Scalar)

/-- A slot is added for a new identifier; any other name is refused. -/
theorem addSlot_cases (isParam : Bool) :
    (∃ cause, (cause = .invalidIdentifier name ∨ cause = .duplicateLocal t.function name)
      ∧ addSlot name ty isParam t = .error cause t)
    ∨ (Name.isIdentifier name = true ∧ t.index.find? name = none
      ∧ addSlot name ty isParam t = .ok t.slots.length { t with
          slots := t.slots ++ [{ name, ty, isParam }]
          index := t.index.insert name t.slots.length }) := by
  rw [addSlot, get_bind]
  by_cases hname : Name.isIdentifier name = true
  · by_cases hnew : t.index.find? name = none
    · refine .inr ⟨hname, hnew, ?_⟩
      rw [hname, NameTable.contains, hnew]
      rfl
    · have hsome : t.index.contains name = true := Option.isSome_iff_ne_none.2 hnew
      refine .inl ⟨_, .inr rfl, ?_⟩
      rw [hname, hsome]
      rfl
  · rw [Bool.not_eq_true] at hname
    refine .inl ⟨_, .inl rfl, ?_⟩
    rw [hname]
    rfl

/-- A parameter gets a new slot, which is assigned from the start. -/
theorem declareParam_cases :
    (∃ cause, (cause = .invalidIdentifier name ∨ cause = .duplicateLocal t.function name)
      ∧ declareParam name ty t = .error cause t)
    ∨ (Name.isIdentifier name = true ∧ t.index.find? name = none
      ∧ declareParam name ty t = .ok () { t with
          slots := t.slots ++ [{ name, ty, isParam := true }]
          index := t.index.insert name t.slots.length
          assigned := SlotSet.insert t.slots.length t.assigned }) := by
  rcases addSlot_cases t name ty true with ⟨cause, hcause, hadd⟩ | ⟨hname, hnew, hadd⟩
  · exact .inl ⟨cause, hcause, bind_error hadd⟩
  · exact .inr ⟨hname, hnew, bind_ok hadd⟩

/-- A declared local takes over the slot of the same name and type, which is unassigned
again, or gets a new slot. -/
theorem declareLocal_cases :
    (∃ cause, (cause = .invalidIdentifier name ∨ cause = .duplicateLocal t.function name)
      ∧ declareLocal name ty t = .error cause t)
    ∨ (∃ slot i, t.slot? name = some (slot, i) ∧ slot.isParam = false ∧ slot.ty = ty
      ∧ declareLocal name ty t = .ok () { t with assigned := SlotSet.erase i t.assigned })
    ∨ (Name.isIdentifier name = true ∧ t.index.find? name = none
      ∧ declareLocal name ty t = .ok () { t with
          slots := t.slots ++ [{ name, ty, isParam := false }]
          index := t.index.insert name t.slots.length }) := by
  rw [declareLocal, get_bind]
  cases hslot : t.slot? name with
  | none =>
    rcases addSlot_cases t name ty false with ⟨cause, hcause, hadd⟩ | ⟨hname, hnew, hadd⟩
    · exact .inl ⟨cause, hcause, bind_error hadd⟩
    · exact .inr (.inr ⟨hname, hnew, bind_ok hadd⟩)
  | some found =>
    by_cases hother : (found.1.isParam || found.1.ty != ty) = true
    · refine .inl ⟨_, .inr rfl, ?_⟩
      simp only [hother, if_true]
      rfl
    · refine .inr (.inl ⟨found.1, found.2, rfl, by simp_all, by simp_all, ?_⟩)
      simp only [hother, Bool.false_eq_true, if_false]
      rfl

/-- A read finds an assigned slot and marks it. -/
theorem read_cases :
    (∃ cause, (cause = .unknownLocal t.function name ∧ t.slot? name = none
        ∨ ∃ slot i, cause = .unassignedLocal t.function name ∧ t.slot? name = some (slot, i)
          ∧ i ∉ t.assigned)
      ∧ read name t = .error cause t)
    ∨ (∃ slot i, t.slot? name = some (slot, i) ∧ i ∈ t.assigned
      ∧ read name t = .ok slot.ty
        { t with slots := t.slots.modify i fun s => { s with read := true } }) := by
  cases hslot : t.slot? name with
  | none =>
    have hlook : t.slot name = .error (.unknownLocal t.function name) := by
      rw [LocalTable.slot, hslot]
    exact .inl ⟨_, .inl ⟨rfl, rfl⟩, bind_error (look_error hlook)⟩
  | some found =>
    obtain ⟨slot, i⟩ := found
    have hlook : look (·.slot name) t = .ok (slot, i) t := look_ok (by rw [LocalTable.slot, hslot])
    simp only [read, bind_ok hlook, get_bind]
    by_cases hmem : i ∈ t.assigned
    · refine .inr ⟨slot, i, rfl, hmem, ?_⟩
      rw [List.contains_iff_mem.2 hmem]
      rfl
    · have hnone : t.assigned.contains i = false := by simpa using hmem
      refine .inl ⟨_, .inr ⟨slot, i, rfl, rfl, hmem⟩, ?_⟩
      rw [hnone]
      rfl

/-- An assignment adds the slot of the name to the assigned ones. -/
theorem assign_cases :
    (t.slot? name = none ∧ assign name t = .error (.unknownLocal t.function name) t)
    ∨ (∃ slot i, t.slot? name = some (slot, i)
      ∧ assign name t = .ok slot.ty { t with assigned := SlotSet.insert i t.assigned }) := by
  cases hslot : t.slot? name with
  | none =>
    have hlook : t.slot name = .error (.unknownLocal t.function name) := by
      rw [LocalTable.slot, hslot]
    exact .inl ⟨rfl, bind_error (look_error hlook)⟩
  | some found =>
    have hlook : t.slot name = .ok found := by
      rw [LocalTable.slot, hslot]
    exact .inr ⟨found.1, found.2, rfl, bind_ok (look_ok hlook)⟩

end LocalStep

/-! ## The index -/

namespace LocalTable

variable {t t' : LocalTable} {name : String} {slot : LocalSlot} {i : Nat}

/-- The index has the names of the slots and no others, and gives their places. -/
def Indexed (t : LocalTable) : Prop :=
  ∀ name i, t.index.find? name = some i ↔ (t.slots.map (·.name))[i]? = some name

theorem indexed_new (function : String) : Indexed { function } := by
  simp [Indexed]

theorem Indexed.of_names (h : t.Indexed) (hindex : t'.index = t.index)
    (hnames : t'.slots.map (·.name) = t.slots.map (·.name)) : t'.Indexed := by
  rwa [Indexed, hindex, hnames]

/-- A slot with a new name is added at the end, and its place to the index. -/
theorem Indexed.addSlot (h : t.Indexed) (hnew : t.index.find? slot.name = none)
    (assigned : SlotSet) :
    Indexed { t with
      slots := t.slots ++ [slot]
      index := t.index.insert slot.name t.slots.length
      assigned } := by
  intro name i
  have hlast : (t.slots ++ [slot]).map (·.name) = t.slots.map (·.name) ++ [slot.name] := by simp
  rw [NameTable.find?_insert, hlast]
  rcases Nat.lt_trichotomy i t.slots.length with hlt | rfl | hgt
  · -- an older place, which the new name does not have
    have hne : t.slots.length ≠ i := Nat.ne_of_gt hlt
    rw [List.getElem?_append_left (by simpa using hlt), ← h name i]
    split
    · rename_i heq
      simp [← heq, hnew, hne]
    · rfl
  · have hplace : t.index.find? name ≠ some t.slots.length := by
      rw [ne_eq, h name]
      simp
    simp [hplace]
  · have hplace : t.index.find? name ≠ some i := by
      rw [ne_eq, h name, List.getElem?_eq_none (by simpa using Nat.le_of_lt hgt)]
      simp
    have hne : t.slots.length ≠ i := Nat.ne_of_lt hgt
    rw [List.getElem?_eq_none (by simpa using Nat.succ_le_of_lt hgt)]
    split <;> simp [hplace, hne]

theorem slot?_eq_some_iff_index :
    t.slot? name = some (slot, i) ↔ t.index.find? name = some i ∧ t.slots[i]? = some slot := by
  simp only [slot?, Option.bind_eq_bind, Option.bind_eq_some_iff, Option.pure_def,
    Option.some.injEq, Prod.mk.injEq]
  constructor
  · rintro ⟨_, hfind, _, hslot, rfl, rfl⟩
    exact ⟨hfind, hslot⟩
  · rintro ⟨hfind, hslot⟩
    exact ⟨i, hfind, slot, hslot, rfl, rfl⟩

/-- Look-up finds each slot by its name. -/
theorem Indexed.slot?_eq_some_iff (h : t.Indexed) :
    t.slot? name = some (slot, i) ↔ t.slots[i]? = some slot ∧ slot.name = name := by
  rw [slot?_eq_some_iff_index, h name i, List.getElem?_map, Option.map_eq_some_iff]
  constructor
  · rintro ⟨⟨other, hother, hname⟩, hslot⟩
    obtain rfl : other = slot := Option.some.inj (hother.symm.trans hslot)
    exact ⟨hslot, hname⟩
  · rintro ⟨hslot, hname⟩
    exact ⟨⟨slot, hslot, hname⟩, hslot⟩

theorem slot?_of_not_indexed (h : t.index.find? name = none) : t.slot? name = none := by
  simp [slot?, h]

end LocalTable

namespace LocalStep

variable {α : Type}

/-- Where the step succeeds, it keeps the index in agreement with the slots. -/
def KeepsIndex (step : LocalStep α) : Prop :=
  ∀ {t t' : LocalTable} {a : α}, t.Indexed → step t = .ok a t' → t'.Indexed

theorem keepsIndex_declareParam (name : String) (ty : Scalar) :
    (declareParam name ty).KeepsIndex := by
  intro t t' a hindexed h
  rcases declareParam_cases t name ty with ⟨cause, _, hstep⟩ | ⟨_, hnew, hstep⟩
  · cases hstep.symm.trans h
  · cases hstep.symm.trans h
    exact hindexed.addSlot hnew _

theorem keepsIndex_declareLocal (name : String) (ty : Scalar) :
    (declareLocal name ty).KeepsIndex := by
  intro t t' a hindexed h
  rcases declareLocal_cases t name ty with ⟨cause, _, hstep⟩
    | ⟨slot, i, _, _, _, hstep⟩ | ⟨_, hnew, hstep⟩
  · cases hstep.symm.trans h
  · cases hstep.symm.trans h
    exact hindexed
  · cases hstep.symm.trans h
    exact hindexed.addSlot hnew _

theorem keepsIndex_read (name : String) : (read name).KeepsIndex := by
  intro t t' a hindexed h
  rcases read_cases t name with ⟨cause, _, hstep⟩ | ⟨slot, i, _, _, hstep⟩
  · cases hstep.symm.trans h
  · cases hstep.symm.trans h
    have hnames : (t.slots.modify i fun s => { s with read := true }).map (·.name)
        = t.slots.map (·.name) := by
      rw [map_modify_eq]
      intro slot
      rfl
    exact hindexed.of_names rfl hnames

theorem keepsIndex_assign (name : String) : (assign name).KeepsIndex := by
  intro t t' a hindexed h
  rcases assign_cases t name with ⟨_, hstep⟩ | ⟨slot, i, _, hstep⟩
  · cases hstep.symm.trans h
  · cases hstep.symm.trans h
    exact hindexed

end LocalStep

namespace LocalTable.Indexed

variable {t t' : LocalTable} {name : String} {ty : Scalar}

theorem declareParam (h : t.Indexed) (hdeclare : t.declareParam name ty = .ok t') : t'.Indexed :=
  LocalStep.keepsIndex_declareParam name ty h (LocalStep.map_outcome_eq_ok.1 hdeclare)

theorem declareLocal (h : t.Indexed) (hdeclare : t.declareLocal name ty = .ok t') : t'.Indexed :=
  LocalStep.keepsIndex_declareLocal name ty h (LocalStep.map_outcome_eq_ok.1 hdeclare)

theorem read (h : t.Indexed) (hread : t.read name = .ok (ty, t')) : t'.Indexed :=
  LocalStep.keepsIndex_read name h (LocalStep.outcome_eq_ok.1 hread)

theorem assign (h : t.Indexed) (hassign : t.assign name = .ok (ty, t')) : t'.Indexed :=
  LocalStep.keepsIndex_assign name h (LocalStep.outcome_eq_ok.1 hassign)

end LocalTable.Indexed

end ScalarC
