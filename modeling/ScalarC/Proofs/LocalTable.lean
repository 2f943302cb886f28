import ScalarC.Proofs.RegisterTable

/-!
# Local tables

What the operations on a local table change when they succeed. Slots are only added; their
names and types never change.
-/

namespace ScalarC

/-! ## Tables -/

namespace LocalTable

variable {t t' : LocalTable} {name : String} {ty : Scalar} {slot : LocalSlot} {i : Nat}

/-- The slots without their read marks. -/
def declared (t : LocalTable) : List LocalSlot :=
  t.slots.map fun slot => { slot with read := false }

/-- The type under which a name is declared. -/
def typeOf? (t : LocalTable) (name : String) : Option Scalar :=
  (t.slots.find? (·.name == name)).map (·.ty)

/-- The slot of a name has that name, and its type is the one of the name. -/
theorem Indexed.slot?_eq_some (h : t.Indexed) (hslot : t.slot? name = some (slot, i)) :
    t.slots[i]? = some slot ∧ slot.name = name ∧ t.typeOf? name = some slot.ty := by
  obtain ⟨hplace, hname⟩ := h.slot?_eq_some_iff.1 hslot
  refine ⟨hplace, hname, ?_⟩
  cases hfind : t.slots.find? (·.name == name) with
  | none =>
    have hother := List.find?_eq_none.1 hfind slot (List.mem_of_getElem? hplace)
    simp [hname] at hother
  | some first =>
    -- the first slot of that name is at the place that the index gives
    obtain ⟨j, hj⟩ := List.getElem?_of_mem (List.mem_of_find?_eq_some hfind)
    have hfirst : first.name = name := by simpa using List.find?_some hfind
    cases hslot.symm.trans (h.slot?_eq_some_iff.2 ⟨hj, hfirst⟩)
    simp [typeOf?, hfind]

theorem Indexed.slot?_eq_none (h : t.Indexed) (hslot : t.slot? name = none) :
    t.typeOf? name = none := by
  rw [typeOf?, Option.map_eq_none_iff, List.find?_eq_none]
  intro slot hmem hname
  obtain ⟨i, hi⟩ := List.getElem?_of_mem hmem
  rw [h.slot?_eq_some_iff.2 ⟨hi, by simpa using hname⟩] at hslot
  cases hslot

theorem Indexed.nodup_names (h : t.Indexed) : (t.slots.map (·.name)).Nodup := by
  refine List.pairwise_iff_getElem.2 fun i j hi hj hij heq => ?_
  have hfirst := (h _ i).2 (List.getElem?_eq_getElem hi)
  have hsecond := (h _ j).2 (List.getElem?_eq_getElem hj)
  rw [heq, hsecond, Option.some.injEq] at hfirst
  omega

theorem typeOf?_eq_declared (t : LocalTable) (name : String) :
    t.typeOf? name = (t.declared.find? (·.name == name)).map (·.ty) := by
  simp [typeOf?, declared, List.find?_map, Function.comp_def]

/-- A type that is found stays found when slots are added. -/
theorem typeOf?_of_prefix (h : t.declared <+: t'.declared) (hty : t.typeOf? name = some ty) :
    t'.typeOf? name = some ty := by
  rw [typeOf?_eq_declared] at hty ⊢
  obtain ⟨slot, hslot, rfl⟩ := Option.map_eq_some_iff.1 hty
  rw [List.IsPrefix.find?_eq_some h hslot]
  rfl

theorem slot_ok {found : LocalSlot × Nat} (h : t.slot name = .ok found) :
    t.slot? name = some found := by
  unfold slot at h
  cases hslot : t.slot? name <;> simp_all

theorem typeOf_ok (h : t.typeOf name = .ok ty) :
    ∃ slot i, t.slot? name = some (slot, i) ∧ slot.ty = ty := by
  simp only [typeOf, bind_eq_ok, pure_eq_ok] at h
  obtain ⟨⟨slot, i⟩, hslot, rfl⟩ := h
  exact ⟨slot, i, slot_ok hslot, rfl⟩

theorem Indexed.typeOf?_of_typeOf (h : t.Indexed) (hty : t.typeOf name = .ok ty) :
    t.typeOf? name = some ty := by
  obtain ⟨slot, i, hslot, rfl⟩ := typeOf_ok hty
  exact (h.slot?_eq_some hslot).2.2

theorem read_ok (h : t.read name = .ok (ty, t')) :
    ∃ slot i, t.slot? name = some (slot, i) ∧ i ∈ t.assigned ∧ slot.ty = ty
      ∧ t' = { t with slots := t.slots.modify i fun s => { s with read := true } } := by
  have haccepted := LocalStep.outcome_eq_ok.1 h
  rcases LocalStep.read_cases t name with ⟨cause, _, hstep⟩ | ⟨slot, i, hslot, hmem, hstep⟩
  · cases hstep.symm.trans haccepted
  · cases hstep.symm.trans haccepted
    exact ⟨slot, i, hslot, hmem, rfl, rfl⟩

theorem assign_ok (h : t.assign name = .ok (ty, t')) :
    ∃ slot i, t.slot? name = some (slot, i) ∧ slot.ty = ty
      ∧ t' = { t with assigned := SlotSet.insert i t.assigned } := by
  have haccepted := LocalStep.outcome_eq_ok.1 h
  rcases LocalStep.assign_cases t name with ⟨_, hstep⟩ | ⟨slot, i, hslot, hstep⟩
  · cases hstep.symm.trans haccepted
  · cases hstep.symm.trans haccepted
    exact ⟨slot, i, hslot, rfl, rfl⟩

theorem declareLocal_ok (h : t.declareLocal name ty = .ok t') :
    (∃ slot i, t.slot? name = some (slot, i) ∧ slot.isParam = false ∧ slot.ty = ty
      ∧ t' = { t with assigned := SlotSet.erase i t.assigned })
    ∨ (t.slot? name = none
      ∧ t' = { t with
          slots := t.slots ++ [{ name, ty, isParam := false }]
          index := t.index.insert name t.slots.length }) := by
  have haccepted := LocalStep.map_outcome_eq_ok.1 h
  rcases LocalStep.declareLocal_cases t name ty with ⟨cause, _, hstep⟩
    | ⟨slot, i, hslot, hparam, hty, hstep⟩ | ⟨_, hnew, hstep⟩
  · cases hstep.symm.trans haccepted
  · cases hstep.symm.trans haccepted
    exact .inl ⟨slot, i, hslot, hparam, hty, rfl⟩
  · cases hstep.symm.trans haccepted
    exact .inr ⟨slot?_of_not_indexed hnew, rfl⟩

theorem isIdentifier_of_declareLocal (h : t.declareLocal name ty = .ok t')
    (hnew : t.slot? name = none) : Name.isIdentifier name = true := by
  rcases LocalStep.declareLocal_cases t name ty with
    ⟨cause, _, hstep⟩ | ⟨_, _, hslot, _⟩ | ⟨hname, _⟩
  · cases hstep.symm.trans (LocalStep.map_outcome_eq_ok.1 h)
  · simp [hnew] at hslot
  · exact hname

theorem declareParam_ok (h : t.declareParam name ty = .ok t') :
    t.slot? name = none
      ∧ t' = { t with
          slots := t.slots ++ [{ name, ty, isParam := true }]
          index := t.index.insert name t.slots.length
          assigned := SlotSet.insert t.slots.length t.assigned } := by
  have haccepted := LocalStep.map_outcome_eq_ok.1 h
  rcases LocalStep.declareParam_cases t name ty with ⟨cause, _, hstep⟩ | ⟨_, hnew, hstep⟩
  · cases hstep.symm.trans haccepted
  · cases hstep.symm.trans haccepted
    exact ⟨slot?_of_not_indexed hnew, rfl⟩

theorem isIdentifier_of_declareParam (h : t.declareParam name ty = .ok t') :
    Name.isIdentifier name = true := by
  rcases LocalStep.declareParam_cases t name ty with ⟨cause, _, hstep⟩ | ⟨hname, _⟩
  · cases hstep.symm.trans (LocalStep.map_outcome_eq_ok.1 h)
  · exact hname

/-- A declared name is found with its type. -/
theorem Indexed.typeOf?_declareLocal (h : t.Indexed) (hdeclare : t.declareLocal name ty = .ok t') :
    t'.typeOf? name = some ty := by
  rcases declareLocal_ok hdeclare with ⟨slot, i, hslot, _, rfl, rfl⟩ | ⟨hnew, rfl⟩
  · have hfound := (h.slot?_eq_some hslot).2.2
    exact hfound
  · have hnone := h.slot?_eq_none hnew
    simp only [typeOf?, Option.map_eq_none_iff] at hnone
    simp [typeOf?, List.find?_append, hnone]

theorem declared_read (h : t.read name = .ok (ty, t')) : t'.declared = t.declared := by
  obtain ⟨slot, i, _, _, _, rfl⟩ := read_ok h
  simp only [declared]
  rw [map_modify_eq]
  intro slot
  rfl

theorem declared_declareLocal (h : t.declareLocal name ty = .ok t') :
    t.declared <+: t'.declared := by
  rcases declareLocal_ok h with ⟨_, _, _, _, _, rfl⟩ | ⟨_, rfl⟩
  · exact List.prefix_rfl
  · simp [declared]

end LocalTable

end ScalarC
