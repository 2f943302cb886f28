import ScalarC.Proofs.Lowering.Growth

/-!
# Assigned locals

A local table covers a property of names if every assigned slot belongs to a name
with the property. Reading a local then gives the property for it, assigning asks
for it, and declaring a local again takes its name out. What lowering follows along
the way is in this sense sound for any property that assignments establish.
-/

namespace ScalarC

namespace LocalTable

variable {t t' : LocalTable} {name : String} {ty : Scalar} {slot : LocalSlot} {i : Nat}
  {P Q : String → Prop}

/-- The number of the first slot of a name. -/
def place? (t : LocalTable) (name : String) : Option Nat :=
  t.declared.findIdx? (·.name == name)

theorem place?_of_prefix (h : t.declared <+: t'.declared) (hplace : t.place? name = some i) :
    t'.place? name = some i :=
  List.IsPrefix.findIdx?_eq_some h hplace

/-- The slot at the place of a name has that name. -/
theorem name_of_place? (h : t.place? name = some i) :
    ∃ slot, t.slots[i]? = some slot ∧ slot.name = name := by
  obtain ⟨hlt, hname, _⟩ := List.findIdx?_eq_some_iff_getElem.1 h
  simp only [declared, List.length_map] at hlt
  refine ⟨t.slots[i], List.getElem?_eq_getElem hlt, ?_⟩
  simpa [declared] using hname

/-- Distinct names have distinct slots. -/
theorem place?_inj {other : String} (h : t.place? name = some i)
    (h' : t.place? other = some i) : name = other := by
  obtain ⟨slot, hslot, rfl⟩ := name_of_place? h
  obtain ⟨slot', hslot', rfl⟩ := name_of_place? h'
  rw [Option.some.inj (hslot.symm.trans hslot')]

/-- The index gives the places. -/
theorem Indexed.place?_eq (h : t.Indexed) (name : String) :
    t.place? name = (t.slot? name).map (·.2) := by
  cases hslot : t.slot? name with
  | none =>
    refine List.findIdx?_eq_none_iff.2 fun slot hmem => ?_
    have hnone := h.slot?_eq_none hslot
    rw [typeOf?_eq_declared, Option.map_eq_none_iff, List.find?_eq_none] at hnone
    simpa using hnone slot hmem
  | some found =>
    obtain ⟨hat, hname⟩ := h.slot?_eq_some_iff.1 hslot
    cases hplace : t.place? name with
    | none =>
      have hother := List.findIdx?_eq_none_iff.1 hplace { found.1 with read := false }
        (List.mem_map_of_mem (List.mem_of_getElem? hat))
      simp [hname] at hother
    | some i =>
      obtain ⟨slot, hfirst⟩ := name_of_place? hplace
      cases hslot.symm.trans (h.slot?_eq_some_iff.2 hfirst)
      rfl

/-- Every assigned slot belongs to a name with the property. -/
def Covers (t : LocalTable) (P : String → Prop) : Prop :=
  ∀ i ∈ t.assigned, ∃ name, t.place? name = some i ∧ P name

namespace Covers

theorem mono (h : t.Covers P) (hPQ : ∀ name, P name → Q name) : t.Covers Q := by
  intro i hi
  obtain ⟨name, hplace, hP⟩ := h i hi
  exact ⟨name, hplace, hPQ name hP⟩

/-- Fewer slots are assigned, in a table that may have grown. -/
theorem of_subset (h : t.Covers P) (grown : t.declared <+: t'.declared)
    (hsub : ∀ i ∈ t'.assigned, i ∈ t.assigned) : t'.Covers P := by
  intro i hi
  obtain ⟨name, hplace, hP⟩ := h i (hsub i hi)
  exact ⟨name, place?_of_prefix grown hplace, hP⟩

/-- Only an assigned local can be read. -/
theorem of_read (h : t.Covers P) (hindexed : t.Indexed) (hread : t.read name = .ok (ty, t')) :
    P name := by
  obtain ⟨slot, i, hslot, hi, _, _⟩ := read_ok hread
  obtain ⟨other, hplace, hP⟩ := h i hi
  have hname : t.place? name = some i := by simp [hindexed.place?_eq, hslot]
  rwa [place?_inj hname hplace]

theorem assign (h : t.Covers P) (hindexed : t.Indexed) (hassign : t.assign name = .ok (ty, t')) :
    t'.Covers fun other => other = name ∨ P other := by
  obtain ⟨slot, i, hslot, _, rfl⟩ := assign_ok hassign
  intro j hj
  rcases SlotSet.mem_insert.1 hj with rfl | hj
  · have hplace : t.place? name = some j := by simp [hindexed.place?_eq, hslot]
    exact ⟨name, hplace, .inl rfl⟩
  · obtain ⟨other, hplace, hP⟩ := h j hj
    exact ⟨other, hplace, .inr hP⟩

/-- A declared local is unassigned, and the others are as before. -/
theorem declareLocal (h : t.Covers P) (hindexed : t.Indexed)
    (hdeclare : t.declareLocal name ty = .ok t') :
    t'.Covers fun other => other ≠ name ∧ P other := by
  have grown := declared_declareLocal hdeclare
  rcases declareLocal_ok hdeclare with ⟨slot, i, hslot, _, _, rfl⟩ | ⟨hnew, rfl⟩
  · intro j hj
    obtain ⟨hj, hne⟩ := SlotSet.mem_erase.1 hj
    obtain ⟨other, hplace, hP⟩ := h j hj
    refine ⟨other, place?_of_prefix grown hplace, ?_, hP⟩
    rintro rfl
    rw [hindexed.place?_eq, hslot, Option.map_some, Option.some.injEq] at hplace
    exact hne hplace.symm
  · intro j hj
    obtain ⟨other, hplace, hP⟩ := h j hj
    refine ⟨other, place?_of_prefix grown hplace, ?_, hP⟩
    rintro rfl
    simp [hindexed.place?_eq, hnew] at hplace

/-- A parameter is assigned from the start. -/
theorem declareParam (h : t.Covers P) (hindexed : t.Indexed)
    (hdeclare : t.declareParam name ty = .ok t') :
    t'.Covers fun other => other = name ∨ P other := by
  have hgrown := hindexed.declareParam hdeclare
  obtain ⟨hnew, rfl⟩ := declareParam_ok hdeclare
  intro j hj
  rcases SlotSet.mem_insert.1 hj with rfl | hj
  · refine ⟨name, ?_, .inl rfl⟩
    rw [hgrown.place?_eq, hgrown.slot?_eq_some_iff.2 ⟨List.getElem?_concat_length, rfl⟩]
    rfl
  · obtain ⟨other, hplace, hP⟩ := h j hj
    exact ⟨other, place?_of_prefix (by simp [declared]) hplace, .inr hP⟩

end Covers

end LocalTable

variable {s s' : Session} {name : String} {ty : Scalar} {P : String → Prop}

/-- Evaluating expressions leaves what is assigned as it is. -/
theorem Session.Evaluates.covers (h : s.Evaluates s') (hcovers : s.locals.Covers P) :
    s'.locals.Covers P :=
  hcovers.of_subset h.extends.declared (by simp [h.assigned])

namespace Lower

theorem readLocal_covers (hcovers : s.locals.Covers P) (h : readLocal name s = .ok (ty, s')) :
    P name := by
  obtain ⟨table, hread, rfl⟩ := readLocal_ok.1 h
  exact hcovers.of_read s.indexed hread

theorem assignLocal_covers {u : Unit} (hcovers : s.locals.Covers P)
    (h : assignLocal name s = .ok (u, s')) :
    s'.locals.Covers fun other => other = name ∨ P other := by
  obtain ⟨ty, table, hassign, rfl⟩ := assignLocal_ok.1 h
  exact hcovers.assign s.indexed hassign

theorem declareLocal_covers {u : Unit} (hcovers : s.locals.Covers P)
    (h : declareLocal name ty s = .ok (u, s')) :
    s'.locals.Covers fun other => other ≠ name ∧ P other := by
  obtain ⟨table, hdeclare, rfl⟩ := declareLocal_ok.1 h
  exact hcovers.declareLocal s.indexed hdeclare

end Lower

/-- The slots behind a branch are assigned at the end of an arm that control passes. -/
theorem Flow.mem_joinAssigned_then {elseFlow : Flow} {afterThen afterElse : SlotSet} {i : Nat}
    (h : i ∈ joinAssigned .continues elseFlow afterThen afterElse) : i ∈ afterThen := by
  cases elseFlow <;> simp_all [joinAssigned]

theorem Flow.mem_joinAssigned_else {thenFlow : Flow} {afterThen afterElse : SlotSet} {i : Nat}
    (h : i ∈ joinAssigned thenFlow .continues afterThen afterElse) : i ∈ afterElse := by
  cases thenFlow <;> simp_all [joinAssigned]

/-- Parameters are assigned from the start. -/
theorem LowersParams.covers {params : List Parameter} (h : LowersParams s params s')
    (hcovers : s.locals.Covers P) (hparams : ∀ param ∈ params, P param.name) :
    s'.locals.Covers P := by
  induction h with
  | nil s => exact hcovers
  | @cons s s₁ s' param rest declares tail ih =>
    obtain ⟨hfirst, hrest⟩ := List.forall_mem_cons.1 hparams
    obtain ⟨table, hdeclare, rfl⟩ := Lower.declareParam_ok.1 declares
    refine ih ((Session.evaluates_reserved _ _).covers ?_) hrest
    refine (hcovers.declareParam s.indexed hdeclare).mono ?_
    rintro other (rfl | hother)
    · exact hfirst
    · exact hother

/-- The context of a sample that is the only function of its unit. -/
def Sample.shared (function : SourceFunction) (symbol : String) : Shared where
  settings := {}
  registry :=
    { spelling := .canonical
      delimiter := '$'
      owners := NameTable.empty.insert symbol function.id
      symbols := [(function.id, symbol)] }
  signatures := []
  constants := []

end ScalarC
