import Mathlib.Data.List.Induction
import ScalarC.Proofs.Lowering.Tables

/-!
# Series of calls on a local table

A local table is used by a series of calls, some of which are refused, and earlier sets of
assigned slots may be restored at any time. A call that is refused leaves everything as it is,
and a call that is accepted does what the operation on tables does. So after any series the
slots have distinct identifiers as names, the index has exactly these names and gives their
places, the assigned slots exist, what was declared stays as it was, and the marks of slots say
which ones were read.

## Main definitions

* `LocalSeries.call`: one call, with the table and the snapshots behind it.
* `LocalTable.Sound`, `LocalSeries.Behaves`: what holds behind every series.
-/

namespace ScalarC

/-! ## Tables -/

namespace LocalTable

variable {t t' : LocalTable}

/-- The table has the slots of the set. -/
def Holds (t : LocalTable) (slots : SlotSet) : Prop := ∀ i ∈ slots, i < t.slots.length

theorem Holds.of_grown {slots : SlotSet} (h : t.Holds slots) (hslots : t.declared <+: t'.declared) :
    t'.Holds slots := by
  have hlength := hslots.length_le
  simp only [declared, List.length_map] at hlength
  intro i hi
  have hlt := h i hi
  omega

/-- The slots have distinct identifiers as names, the index maps exactly these names to the
places of their slots, look-up finds the slots through it, and the assigned slots exist. -/
structure Sound (t : LocalTable) : Prop where
  identifiers : ∀ slot ∈ t.slots, Name.isIdentifier slot.name = true
  distinct : (t.slots.map (·.name)).Nodup
  index : ∀ name i, t.index.find? name = some i ↔ ∃ slot, t.slots[i]? = some slot ∧ slot.name = name
  found : ∀ name slot i, t.slot? name = some (slot, i) ↔
    t.slots[i]? = some slot ∧ slot.name = name
  assigned : ∀ i ∈ t.assigned, i < t.slots.length

end LocalTable

/-! ## Calls -/

/-- A call on a local table. -/
inductive LocalCall where
  | declareParam (name : String) (ty : Scalar)
  | declareLocal (name : String) (ty : Scalar)
  | typeOf (name : String)
  | read (name : String)
  | assign (name : String)
  | snapshot
  /-- Goes back to a snapshot, by its number. -/
  | restore (number : Nat)

/-- A table in use, with the snapshots that were taken so far. -/
structure LocalSeries where
  table : LocalTable
  taken : List SlotSet := []

namespace LocalSeries

/-- Makes a step on the table. What the step leaves stays, also when it is refused. -/
def perform {α : Type} (s : LocalSeries) (step : LocalStep α) :
    Except CompileError Unit × LocalSeries :=
  match step s.table with
  | .ok _ table => (.ok (), { s with table })
  | .error cause table => (.error cause, { s with table })

/-- Makes a call. Nothing happens for the number of a snapshot that was not taken. -/
def call (s : LocalSeries) : LocalCall → Except CompileError Unit × LocalSeries
  | .declareParam name ty => s.perform (LocalStep.declareParam name ty)
  | .declareLocal name ty => s.perform (LocalStep.declareLocal name ty)
  | .typeOf name => s.perform (LocalStep.typeOf name)
  | .read name => s.perform (LocalStep.read name)
  | .assign name => s.perform (LocalStep.assign name)
  | .snapshot =>
    match LocalStep.snapshot s.table with
    | .ok slots table => (.ok (), { table, taken := s.taken ++ [slots] })
    | .error cause table => (.error cause, { s with table })
  | .restore number =>
    match s.taken[number]? with
    | some slots => s.perform (LocalStep.restore slots)
    | none => (.ok (), s)

/-- The series behind some calls, whatever their results. -/
def after (s : LocalSeries) (calls : List LocalCall) : LocalSeries :=
  calls.foldl (fun s c => (s.call c).2) s

/-- The series of a new table. -/
def start (function : String) : LocalSeries := { table := { function } }

variable {s s' : LocalSeries} {c : LocalCall}

/-! ## One call -/

/-- What a call leads to when it is accepted. -/
inductive Leads (s : LocalSeries) : LocalCall → LocalSeries → Prop
  | declareParam {name : String} {ty : Scalar} {table : LocalTable}
      (accepted : s.table.declareParam name ty = .ok table) :
      Leads s (.declareParam name ty) { s with table }
  | declareLocal {name : String} {ty : Scalar} {table : LocalTable}
      (accepted : s.table.declareLocal name ty = .ok table) :
      Leads s (.declareLocal name ty) { s with table }
  | typeOf {name : String} {ty : Scalar} (accepted : s.table.typeOf name = .ok ty) :
      Leads s (.typeOf name) s
  | read {name : String} {ty : Scalar} {table : LocalTable}
      (accepted : s.table.read name = .ok (ty, table)) : Leads s (.read name) { s with table }
  | assign {name : String} {ty : Scalar} {table : LocalTable}
      (accepted : s.table.assign name = .ok (ty, table)) : Leads s (.assign name) { s with table }
  | snapshot : Leads s .snapshot { s with taken := s.taken ++ [s.table.assigned] }
  | restore {number : Nat} {slots : SlotSet} (known : slots ∈ s.taken) :
      Leads s (.restore number) { s with table := s.table.restore slots }
  | restoreUnknown {number : Nat} (unknown : s.taken[number]? = none) :
      Leads s (.restore number) s

theorem perform_ok {α : Type} {step : LocalStep α} {a : α} {table : LocalTable}
    (h : step s.table = .ok a table) : s.perform step = (.ok (), { s with table }) := by
  rw [perform, h]

theorem perform_error {α : Type} {step : LocalStep α} {cause : CompileError}
    (h : step s.table = .error cause s.table) : s.perform step = (.error cause, s) := by
  rw [perform, h]

/-- A call is refused and changes nothing, or is accepted and leads to another series. -/
theorem call_cases (s : LocalSeries) (c : LocalCall) :
    (∃ cause, s.call c = (.error cause, s)) ∨ ∃ s', s.call c = (.ok (), s') ∧ s.Leads c s' := by
  cases c with
  | declareParam name ty =>
    rcases LocalStep.declareParam_cases s.table name ty with ⟨cause, _, hstep⟩ | ⟨_, _, hstep⟩
    · exact .inl ⟨cause, perform_error hstep⟩
    · refine .inr ⟨_, perform_ok hstep, .declareParam ?_⟩
      rw [LocalTable.declareParam, LocalStep.outcome_ok hstep]
      rfl
  | declareLocal name ty =>
    have haccepted : ∀ {table}, LocalStep.declareLocal name ty s.table = .ok () table →
        s.table.declareLocal name ty = .ok table := by
      intro table hstep
      rw [LocalTable.declareLocal, LocalStep.outcome_ok hstep]
      rfl
    rcases LocalStep.declareLocal_cases s.table name ty with ⟨cause, _, hstep⟩
      | ⟨_, _, _, _, _, hstep⟩ | ⟨_, _, hstep⟩
    · exact .inl ⟨cause, perform_error hstep⟩
    · exact .inr ⟨_, perform_ok hstep, .declareLocal (haccepted hstep)⟩
    · exact .inr ⟨_, perform_ok hstep, .declareLocal (haccepted hstep)⟩
  | typeOf name =>
    cases htype : s.table.typeOf name with
    | error cause => exact .inl ⟨cause, perform_error (LocalStep.look_error htype)⟩
    | ok ty => exact .inr ⟨s, perform_ok (LocalStep.look_ok htype), .typeOf htype⟩
  | read name =>
    rcases LocalStep.read_cases s.table name with ⟨cause, _, hstep⟩ | ⟨_, _, _, _, hstep⟩
    · exact .inl ⟨cause, perform_error hstep⟩
    · exact .inr ⟨_, perform_ok hstep, .read (LocalStep.outcome_ok hstep)⟩
  | assign name =>
    rcases LocalStep.assign_cases s.table name with ⟨_, hstep⟩ | ⟨_, _, _, hstep⟩
    · exact .inl ⟨_, perform_error hstep⟩
    · exact .inr ⟨_, perform_ok hstep, .assign (LocalStep.outcome_ok hstep)⟩
  | snapshot => exact .inr ⟨_, rfl, .snapshot⟩
  | restore number =>
    cases htaken : s.taken[number]? with
    | none => exact .inr ⟨s, by simp only [call, htaken], .restoreUnknown htaken⟩
    | some slots =>
      refine .inr ⟨_, ?_, .restore (List.mem_of_getElem? htaken)⟩
      simp only [call, htaken]
      rfl

theorem call_refused {cause : CompileError} (h : (s.call c).1 = .error cause) :
    (s.call c).2 = s := by
  rcases call_cases s c with ⟨_, hcall⟩ | ⟨_, hcall, _⟩
  · rw [hcall]
  · rw [hcall] at h
    cases h

/-- A refused call changes nothing, so a property only has to survive the accepted ones. -/
theorem call_induction {motive : LocalSeries → Prop} (hs : motive s)
    (h : ∀ s', s.Leads c s' → motive s') : motive (s.call c).2 := by
  rcases call_cases s c with ⟨_, hcall⟩ | ⟨s', hcall, hleads⟩
  · rw [hcall]
    exact hs
  · rw [hcall]
    exact h s' hleads

/-! ## Names -/

/-- Slots are only added. -/
theorem Leads.declared (h : s.Leads c s') : s.table.declared <+: s'.table.declared := by
  cases h with
  | declareParam accepted =>
    obtain ⟨_, rfl⟩ := LocalTable.declareParam_ok accepted
    simp [LocalTable.declared]
  | declareLocal accepted => exact LocalTable.declared_declareLocal accepted
  | read accepted => simp [LocalTable.declared_read accepted]
  | assign accepted =>
    obtain ⟨_, _, _, _, rfl⟩ := LocalTable.assign_ok accepted
    exact List.prefix_rfl
  | typeOf _ | snapshot | restore _ | restoreUnknown _ => exact List.prefix_rfl

theorem Leads.identifiers (h : s.Leads c s') (hs : s.table.Identifiers) : s'.table.Identifiers := by
  cases h with
  | declareParam accepted =>
    have hname := LocalTable.isIdentifier_of_declareParam accepted
    obtain ⟨_, rfl⟩ := LocalTable.declareParam_ok accepted
    exact hs.addSlot hname
  | declareLocal accepted =>
    rcases LocalTable.declareLocal_ok accepted with ⟨_, _, _, _, _, rfl⟩ | ⟨hnew, rfl⟩
    · exact hs
    · exact hs.addSlot (LocalTable.isIdentifier_of_declareLocal accepted hnew)
  | read accepted =>
    rwa [LocalTable.Identifiers, LocalTable.names, LocalTable.declared_read accepted]
  | assign accepted =>
    obtain ⟨_, _, _, _, rfl⟩ := LocalTable.assign_ok accepted
    exact hs
  | typeOf _ | snapshot | restore _ | restoreUnknown _ => exact hs

/-- Slots and index change together. -/
theorem Leads.indexed (h : s.Leads c s') (hs : s.table.Indexed) : s'.table.Indexed := by
  cases h with
  | declareParam accepted => exact hs.declareParam accepted
  | declareLocal accepted => exact hs.declareLocal accepted
  | read accepted => exact hs.read accepted
  | assign accepted => exact hs.assign accepted
  | typeOf _ | snapshot | restore _ | restoreUnknown _ => exact hs

/-! ## Assigned slots -/

/-- The assigned slots exist, now and in the snapshots. -/
def Bounded (s : LocalSeries) : Prop := ∀ slots ∈ s.table.assigned :: s.taken, s.table.Holds slots

/-- The set of assigned slots behind a call. -/
theorem Leads.holds_assigned (h : s.Leads c s') (hs : s.Bounded) :
    s'.table.Holds s'.table.assigned := by
  have hassigned : s.table.Holds s.table.assigned := hs _ List.mem_cons_self
  have hgrown := hassigned.of_grown h.declared
  cases h with
  | declareParam accepted =>
    obtain ⟨_, rfl⟩ := LocalTable.declareParam_ok accepted
    intro i hi
    rcases SlotSet.mem_insert.1 hi with rfl | hi
    · simp
    · exact hgrown i hi
  | declareLocal accepted =>
    rcases LocalTable.declareLocal_ok accepted with ⟨_, _, _, _, _, rfl⟩ | ⟨_, rfl⟩
    · intro i hi
      exact hassigned i (SlotSet.mem_erase.1 hi).1
    · exact hgrown
  | read accepted =>
    obtain ⟨_, _, _, _, _, rfl⟩ := LocalTable.read_ok accepted
    exact hgrown
  | assign accepted =>
    obtain ⟨slot, j, hslot, _, rfl⟩ := LocalTable.assign_ok accepted
    intro i hi
    rcases SlotSet.mem_insert.1 hi with rfl | hi
    · have hplace := (LocalTable.slot?_eq_some_iff_index.1 hslot).2
      exact (List.getElem?_eq_some_iff.1 hplace).1
    · exact hassigned i hi
  | restore known => exact hs _ (List.mem_cons_of_mem _ known)
  | typeOf _ | snapshot | restoreUnknown _ => exact hassigned

theorem Leads.bounded (h : s.Leads c s') (hs : s.Bounded) : s'.Bounded := by
  intro slots hslots
  rcases List.mem_cons.1 hslots with rfl | htaken
  · exact h.holds_assigned hs
  · -- a snapshot that was there already, or the one that was taken now
    have hold : slots ∈ s.table.assigned :: s.taken := by
      cases h with
      | snapshot => simpa [or_comm] using htaken
      | _ => exact List.mem_cons_of_mem _ htaken
    exact (hs slots hold).of_grown h.declared

/-! ## Marks -/

/-- A call that is accepted marks the local that it reads, and no other. -/
theorem Leads.isRead_iff (h : s.Leads c s') (hs : s.table.Indexed) (name : String) :
    s'.table.IsRead name ↔ s.table.IsRead name ∨ c = .read name := by
  cases h with
  | declareParam accepted =>
    obtain ⟨_, rfl⟩ := LocalTable.declareParam_ok accepted
    simp [LocalTable.isRead_append]
  | declareLocal accepted =>
    rcases LocalTable.declareLocal_ok accepted with ⟨_, _, _, _, _, rfl⟩ | ⟨_, rfl⟩
    · simp [LocalTable.IsRead]
    · simp [LocalTable.isRead_append]
  | read accepted => simp [hs.isRead_read accepted, eq_comm]
  | assign accepted =>
    obtain ⟨_, _, _, _, rfl⟩ := LocalTable.assign_ok accepted
    simp [LocalTable.IsRead]
  | typeOf _ | snapshot | restore _ | restoreUnknown _ =>
    simp [LocalTable.IsRead, LocalTable.restore]

/-! ## Series of calls -/

/-- What every call preserves. -/
structure Valid (s : LocalSeries) : Prop where
  identifiers : s.table.Identifiers
  indexed : s.table.Indexed
  bounded : s.Bounded

theorem valid_start (function : String) : (start function).Valid where
  identifiers := by simp [start, LocalTable.Identifiers, LocalTable.names_eq]
  indexed := LocalTable.indexed_new function
  bounded := by simp [start, Bounded, LocalTable.Holds]

theorem Valid.call (h : s.Valid) (c : LocalCall) : (s.call c).2.Valid := by
  apply call_induction h
  intro s' hleads
  exact ⟨hleads.identifiers h.identifiers, hleads.indexed h.indexed, hleads.bounded h.bounded⟩

theorem Valid.after (h : s.Valid) (calls : List LocalCall) : (s.after calls).Valid := by
  induction calls generalizing s with
  | nil => exact h
  | cons c calls ih => exact ih (h.call c)

/-- Slots are never removed, and keep their names, their types and whether they are parameters. -/
theorem declared_after (s : LocalSeries) (calls : List LocalCall) :
    s.table.declared <+: (s.after calls).table.declared := by
  induction calls generalizing s with
  | nil => exact List.prefix_rfl
  | cons c calls ih =>
    have hcall : s.table.declared <+: (s.call c).2.table.declared := by
      apply call_induction (motive := fun s' => s.table.declared <+: s'.table.declared)
      · exact List.prefix_rfl
      · intro s' hleads
        exact hleads.declared
    exact hcall.trans (ih (s.call c).2)

theorem after_concat (s : LocalSeries) (calls : List LocalCall) (last : LocalCall) :
    s.after (calls ++ [last]) = ((s.after calls).call last).2 := by
  simp [after]

/-- A call was made in the course of a series, and was accepted. -/
def Accepts (s : LocalSeries) (calls : List LocalCall) (c : LocalCall) : Prop :=
  ∃ before later, calls = before ++ c :: later ∧ ((s.after before).call c).1 = .ok ()

theorem accepts_concat {calls : List LocalCall} {last : LocalCall} :
    s.Accepts (calls ++ [last]) c ↔
      s.Accepts calls c ∨ last = c ∧ ((s.after calls).call last).1 = .ok () := by
  constructor
  · rintro ⟨before, later, heq, hok⟩
    rcases List.eq_nil_or_concat later with rfl | ⟨later, x, rfl⟩
    · obtain ⟨rfl, hlast⟩ := List.append_inj' heq rfl
      cases hlast
      exact .inr ⟨rfl, hok⟩
    · rw [List.concat_eq_append, ← List.cons_append, ← List.append_assoc] at heq
      exact .inl ⟨before, later, (List.append_inj' heq rfl).1, hok⟩
  · rintro (⟨before, later, rfl, hok⟩ | ⟨rfl, hok⟩)
    · exact ⟨before, later ++ [last], by simp, hok⟩
    · exact ⟨calls, [], rfl, hok⟩

/-- The marked locals are those that some call of the series read. -/
theorem isRead_after_iff (function : String) (calls : List LocalCall) (name : String) :
    ((start function).after calls).table.IsRead name ↔
      (start function).Accepts calls (.read name) := by
  induction calls using List.reverseRecOn with
  | nil => simp [start, after, LocalTable.IsRead, Accepts]
  | append_singleton calls last ih =>
    rw [after_concat, accepts_concat, ← ih]
    have hindexed := ((valid_start function).after calls).indexed
    rcases call_cases ((start function).after calls) last with ⟨_, hcall⟩ | ⟨s', hcall, hleads⟩
    · simp [hcall]
    · simp [hcall, hleads.isRead_iff hindexed]

theorem Valid.sound (h : s.Valid) : s.table.Sound where
  identifiers slot hslot := by
    apply h.identifiers
    rw [LocalTable.names_eq]
    exact List.mem_map_of_mem hslot
  distinct := h.indexed.nodup_names
  index name i := by rw [h.indexed name i, List.getElem?_map, Option.map_eq_some_iff]
  found name slot i := h.indexed.slot?_eq_some_iff
  assigned := h.bounded _ List.mem_cons_self

/-- What holds behind a series of calls from the start. Later calls keep what is declared, and
a call that is refused changes neither the slots, the index and the assigned slots of the table
nor the snapshots. -/
structure Behaves (function : String) (calls : List LocalCall) (s : LocalSeries) : Prop where
  sound : s.table.Sound
  declared : ∀ later, s.table.declared <+: (s.after later).table.declared
  refused : ∀ c cause, (s.call c).1 = .error cause → (s.call c).2 = s
  read_iff : ∀ slot ∈ s.table.slots, slot.read = true ↔
    (start function).Accepts calls (.read slot.name)

/-- Whatever is called on a new table, its names, index, assigned slots and marks are right,
and refused calls change nothing. -/
theorem behaves_after (function : String) (calls : List LocalCall) :
    ((start function).after calls).Behaves function calls := by
  have hvalid := (valid_start function).after calls
  refine ⟨hvalid.sound, declared_after _, fun c cause => call_refused, ?_⟩
  intro slot hslot
  rw [← isRead_after_iff, hvalid.indexed.isRead_iff hslot]

-- The snapshot is older than the second slot, and the last two calls are refused.
example :
    ((start "f").after [.declareParam "a" .u8, .snapshot, .declareLocal "x" .u16, .assign "x",
      .read "x", .restore 0, .read "x", .declareLocal "x" .u8]).table
      = { function := "f"
          slots := [⟨"a", .u8, true, false⟩, ⟨"x", .u16, false, true⟩]
          index := ⟨[("a", 0), ("x", 1)], by decide⟩
          assigned := [0] } := by decide

end LocalSeries

end ScalarC
