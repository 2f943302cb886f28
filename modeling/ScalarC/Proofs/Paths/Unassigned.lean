import ScalarC.Proofs.Lowering.Failure
import ScalarC.Proofs.Paths.Places
import ScalarC.Proofs.Simulation.Function

/-!
# Reads that find no assignment

A function is refused for an unassigned local only if one of its paths reads the local where
it is not assigned. Lowering keeps one set of assigned slots for all paths to a point, and a
path that shows why a slot is missing from it has to be found: through the arm of a branch
that does not assign it and does not return, and past a loop without a pass.

A slot belongs to the whole function. So a local can be unassigned on a path that does not
declare it at all, where its declaration stands before the read in an arm that the path does not
take.

## Main definitions

* `Paths.Reaches`, `Paths.Meets`: the counterparts of `Paths.Triple` for single paths, with a
  rule for each way to build paths.
* `Session.Tracks`: the local is assigned in the session if it is assigned on the path, and the
  path declares it only where the text does.
* `Pending`: the local was declared, and not assigned since.
-/

namespace ScalarC

/-! ## Single paths -/

namespace Paths

variable {α : Type} {bad : List α → α → Prop} {P Q R : List α → Prop} {X Y : Paths α}

/-- Behind events with `P`, some path through `X` continues with `Q`. -/
def Reaches (P : List α → Prop) (X : Paths α) (Q : List α → Prop) : Prop :=
  ∀ before, P before → ∃ path, X path .continues ∧ Q (before ++ path)

/-- Behind events with `P`, some path through `X` meets an event that is bad there. -/
def Meets (bad : List α → α → Prop) (P : List α → Prop) (X : Paths α) : Prop :=
  ∀ before, P before → ∃ pre event post flow,
    X (pre ++ event :: post) flow ∧ bad (before ++ pre) event

theorem seq_steps_nil (X : Paths α) : seq X (Paths.steps []) = X := by
  funext path flow
  apply propext
  constructor
  · rintro (⟨hX, rfl⟩ | ⟨first, _, rfl, hX, rfl, rfl⟩)
    · exact hX
    · simpa using hX
  · intro hX
    cases flow with
    | returns => exact .inl ⟨hX, rfl⟩
    | continues => exact .inr ⟨path, [], by simp, hX, rfl, rfl⟩

namespace Reaches

theorem conseq (h : Reaches P X Q) (hQ : ∀ b, Q b → R b) : Reaches P X R := by
  intro before hbefore
  obtain ⟨path, hpath, hpost⟩ := h before hbefore
  exact ⟨path, hpath, hQ _ hpost⟩

theorem steps {events : List α} (h : ∀ before, P before → Q (before ++ events)) :
    Reaches P (steps events) Q :=
  fun before hbefore => ⟨events, ⟨rfl, rfl⟩, h before hbefore⟩

theorem seq (hX : Reaches P X R) (hY : Reaches R Y Q) : Reaches P (seq X Y) Q := by
  intro before hbefore
  obtain ⟨first, hfirst, hmiddle⟩ := hX before hbefore
  obtain ⟨rest, hrest, hpost⟩ := hY _ hmiddle
  exact ⟨first ++ rest, seq_of_continues hfirst hrest, by rwa [← List.append_assoc]⟩

theorem either_left (h : Reaches P X Q) : Reaches P (either X Y) Q := by
  intro before hbefore
  obtain ⟨path, hpath, hpost⟩ := h before hbefore
  exact ⟨path, .inl hpath, hpost⟩

theorem either_right (h : Reaches P Y Q) : Reaches P (either X Y) Q := by
  intro before hbefore
  obtain ⟨path, hpath, hpost⟩ := h before hbefore
  exact ⟨path, .inr hpath, hpost⟩

/-- The loop is left at the first test. -/
theorem loop (h : Reaches P X Q) : Reaches P (Loop X Y) Q := by
  intro before hbefore
  obtain ⟨path, hpath, hpost⟩ := h before hbefore
  exact ⟨path, .leave hpath, hpost⟩

end Reaches

namespace Meets

theorem steps {first last : List α} {event : α}
    (h : ∀ before, P before → bad (before ++ first) event) :
    Meets bad P (steps (first ++ event :: last)) :=
  fun before hbefore => ⟨first, event, last, _, ⟨rfl, rfl⟩, h before hbefore⟩

/-- The event is met in the first part, behind which some path goes on. -/
theorem seq_left (hX : Meets bad P X) (hY : ∃ path flow, Y path flow) :
    Meets bad P (seq X Y) := by
  intro before hbefore
  obtain ⟨pre, event, post, flow, hpath, hbad⟩ := hX before hbefore
  cases flow with
  | returns => exact ⟨pre, event, post, .returns, .inl ⟨hpath, rfl⟩, hbad⟩
  | continues =>
    obtain ⟨rest, flow, hrest⟩ := hY
    have hseq := seq_of_continues hpath hrest
    rw [List.append_assoc, List.cons_append] at hseq
    exact ⟨pre, event, post ++ rest, flow, hseq, hbad⟩

theorem seq_right (hX : Reaches P X R) (hY : Meets bad R Y) : Meets bad P (seq X Y) := by
  intro before hbefore
  obtain ⟨first, hfirst, hmiddle⟩ := hX before hbefore
  obtain ⟨pre, event, post, flow, hpath, hbad⟩ := hY _ hmiddle
  have hseq := seq_of_continues hfirst hpath
  rw [← List.append_assoc] at hseq
  exact ⟨first ++ pre, event, post, flow, hseq, by rwa [← List.append_assoc]⟩

theorem either_left (h : Meets bad P X) : Meets bad P (either X Y) := by
  intro before hbefore
  obtain ⟨pre, event, post, flow, hpath, hbad⟩ := h before hbefore
  exact ⟨pre, event, post, flow, .inl hpath, hbad⟩

theorem either_right (h : Meets bad P Y) : Meets bad P (either X Y) := by
  intro before hbefore
  obtain ⟨pre, event, post, flow, hpath, hbad⟩ := h before hbefore
  exact ⟨pre, event, post, flow, .inr hpath, hbad⟩

theorem loop_test (h : Meets bad P X) : Meets bad P (Loop X Y) := by
  intro before hbefore
  obtain ⟨pre, event, post, flow, hpath, hbad⟩ := h before hbefore
  cases flow with
  | returns => exact ⟨pre, event, post, .returns, .stopTest hpath, hbad⟩
  | continues => exact ⟨pre, event, post, .continues, .leave hpath, hbad⟩

/-- The event is met in the first pass, behind which the loop is left. -/
theorem loop_body (hX : Reaches P X R) (hY : Meets bad R Y) : Meets bad P (Loop X Y) := by
  intro before hbefore
  obtain ⟨first, hfirst, hmiddle⟩ := hX before hbefore
  obtain ⟨pre, event, post, flow, hpath, hbad⟩ := hY _ hmiddle
  rw [List.append_assoc] at hbad
  cases flow with
  | returns =>
    have hloop := Loop.stopBody hfirst hpath
    rw [← List.append_assoc] at hloop
    exact ⟨first ++ pre, event, post, .returns, hloop, hbad⟩
  | continues =>
    have hloop := Loop.again hfirst hpath (.leave hfirst)
    rw [← List.append_assoc, List.append_assoc, List.cons_append] at hloop
    exact ⟨first ++ pre, event, post ++ first, .continues, hloop, hbad⟩

end Meets

end Paths

/-! ## Assignments on a path -/

section Events

variable {before path : List LocalEvent} {name other : String}

/-- The local was declared, and not assigned since. -/
def Pending (before : List LocalEvent) (name : String) : Prop :=
  ∃ first last, before = first ++ .declare name :: last
    ∧ .declare name ∉ last ∧ .assign name ∉ last

theorem AssignedSince.of_append (h : AssignedSince (before ++ path) name)
    (hpath : .assign name ∉ path) : AssignedSince before name := by
  obtain ⟨first, last, heq, hlast⟩ := h
  rcases List.append_eq_append_iff.1 heq with ⟨middle, rfl, hmiddle⟩ | ⟨middle, rfl, hmiddle⟩
  · simp [hmiddle] at hpath
  · cases middle with
    | nil =>
      rw [List.nil_append] at hmiddle
      simp [← hmiddle] at hpath
    | cons event middle =>
      obtain ⟨rfl, rfl⟩ := List.cons.inj hmiddle
      exact ⟨first, middle, rfl, fun hmem => hlast (List.mem_append_left _ hmem)⟩

theorem not_assignedSince_declare (before : List LocalEvent) (name : String) :
    ¬AssignedSince (before ++ [.declare name]) name := by
  rintro ⟨first, last, heq, hlast⟩
  rcases List.eq_nil_or_concat last with rfl | ⟨last, event, rfl⟩
  · obtain ⟨_, hlast⟩ := List.append_inj' heq rfl
    simp at hlast
  · rw [List.concat_eq_append, ← List.cons_append, ← List.append_assoc] at heq
    obtain ⟨_, hlast⟩ := List.append_inj' heq rfl
    simp_all

/-- A local that is not assigned is pending, or nothing happened to it. -/
theorem pending_of_not_assignedSince (h : ¬AssignedSince before name) :
    Pending before name ∨ .declare name ∉ before ∧ .assign name ∉ before := by
  by_cases hdeclare : .declare name ∈ before
  · -- the last declaration
    left
    induction before using List.reverseRecOn with
    | nil => simp at hdeclare
    | append_singleton before event ih =>
      by_cases hevent : event = .declare name
      · exact ⟨before, [], by rw [hevent], by simp, by simp⟩
      · have hassign : event ≠ .assign name := by
          rintro rfl
          exact h (assignedSince_assign before name)
        have hbefore : ¬AssignedSince before name :=
          fun hsince => h (hsince.append (by simpa using Ne.symm hevent))
        obtain ⟨first, last, rfl, hlast, hlast'⟩ :=
          ih hbefore (by simpa [Ne.symm hevent] using hdeclare)
        exact ⟨first, last ++ [event], by simp, by simp [hlast, Ne.symm hevent],
          by simp [hlast', Ne.symm hassign]⟩
  · exact .inr ⟨hdeclare, fun hassign => h (assignedSince_of_mem hassign hdeclare)⟩

end Events

/-! ## Assigned slots -/

namespace LocalTable

variable {t t' : LocalTable} {name other : String} {ty : Scalar}

/-- A local has a slot, and the slot is assigned. -/
def Assigned (t : LocalTable) (name : String) : Prop :=
  ∃ i, t.place? name = some i ∧ i ∈ t.assigned

theorem Unassigned.not_assigned (h : t.Unassigned name) : ¬t.Assigned name := by
  rintro ⟨i, hplace, hi⟩
  obtain ⟨j, hplace', hj⟩ := h
  rw [hplace, Option.some.injEq] at hplace'
  exact hj (hplace' ▸ hi)

namespace Assigned

/-- More slots are assigned, in a table that may have grown. -/
theorem of_subset (h : t.Assigned name) (grown : t.declared <+: t'.declared)
    (hsub : ∀ i ∈ t.assigned, i ∈ t'.assigned) : t'.Assigned name := by
  obtain ⟨i, hplace, hi⟩ := h
  exact ⟨i, place?_of_prefix grown hplace, hsub i hi⟩

theorem of_assign (hindexed : t.Indexed) (h : t.assign name = .ok (ty, t')) :
    t'.Assigned name := by
  obtain ⟨slot, i, hslot, _, rfl⟩ := assign_ok h
  have hplace : t.place? name = some i := by simp [hindexed.place?_eq, hslot]
  exact ⟨i, hplace, SlotSet.mem_insert.2 (.inl rfl)⟩

theorem assign (h : t.Assigned other) (hassign : t.assign name = .ok (ty, t')) :
    t'.Assigned other := by
  obtain ⟨slot, i, _, _, rfl⟩ := assign_ok hassign
  exact h.of_subset List.prefix_rfl fun j hj => SlotSet.mem_insert.2 (.inr hj)

/-- A declaration leaves the other locals assigned. -/
theorem declareLocal (h : t.Assigned other) (hindexed : t.Indexed) (hne : other ≠ name)
    (hdeclare : t.declareLocal name ty = .ok t') : t'.Assigned other := by
  have grown := declared_declareLocal hdeclare
  obtain ⟨j, hplace, hj⟩ := h
  rcases declareLocal_ok hdeclare with ⟨slot, i, hslot, _, _, rfl⟩ | ⟨_, rfl⟩
  · refine ⟨j, place?_of_prefix grown hplace, SlotSet.mem_erase.2 ⟨hj, ?_⟩⟩
    rintro rfl
    have hname : t.place? name = some j := by simp [hindexed.place?_eq, hslot]
    exact hne (place?_inj hplace hname)
  · exact ⟨j, place?_of_prefix grown hplace, hj⟩

theorem of_declareParam (hindexed : t.Indexed) (h : t.declareParam name ty = .ok t') :
    t'.Assigned name := by
  have hgrown := hindexed.declareParam h
  obtain ⟨_, rfl⟩ := declareParam_ok h
  refine ⟨t.slots.length, ?_, SlotSet.mem_insert.2 (.inl rfl)⟩
  rw [hgrown.place?_eq, hgrown.slot?_eq_some_iff.2 ⟨List.getElem?_concat_length, rfl⟩]
  rfl

theorem declareParam (h : t.Assigned other) (hdeclare : t.declareParam name ty = .ok t') :
    t'.Assigned other := by
  obtain ⟨_, rfl⟩ := declareParam_ok hdeclare
  exact h.of_subset (by simp [declared]) fun j hj => SlotSet.mem_insert.2 (.inr hj)

end Assigned

end LocalTable

namespace Session

/-- The local is assigned in the session if it is assigned on the path, and the path declares it
only if the text does so before the place that it has come to. -/
structure Tracks (s : Session) (lets : List String) (name : String) (before : List PlacedEvent) :
    Prop where
  assigned : AssignedSince (before.map (·.event)) name → s.locals.Assigned name
  declared : .declare name ∈ before.map (·.event) → name ∈ lets

theorem Evaluates.assigned_local {s s' : Session} (h : s.Evaluates s') {name : String}
    (hassigned : s.locals.Assigned name) : s'.locals.Assigned name :=
  hassigned.of_subset h.extends.declared (by simp [h.assigned])

namespace Tracks

variable {s s' : Session} {lets : List String} {name : String} {before : List PlacedEvent}

theorem of_assigned (h : s.Tracks lets name before)
    (hassigned : s.locals.Assigned name → s'.locals.Assigned name) : s'.Tracks lets name before :=
  ⟨fun hsince => hassigned (h.assigned hsince), h.declared⟩

theorem mono (h : s.Tracks lets name before) {lets' : List String} (hsub : lets ⊆ lets') :
    s.Tracks lets' name before :=
  ⟨h.assigned, fun hmem => hsub (h.declared hmem)⟩

/-- Events that have nothing to do with the local. -/
theorem append (h : s.Tracks lets name before) {path : List PlacedEvent}
    (hassign : .assign name ∉ path.map (·.event)) (hdeclare : .declare name ∉ path.map (·.event)) :
    s.Tracks lets name (before ++ path) where
  assigned hsince := by
    rw [List.map_append] at hsince
    exact h.assigned (hsince.of_append hassign)
  declared hmem := by
    rw [List.map_append, List.mem_append] at hmem
    exact h.declared (hmem.resolve_right hdeclare)

end Tracks

end Session

/-- Behind a branch, what one of the arms that continue assigns may be taken as assigned. -/
theorem Flow.exists_arm {thenFlow elseFlow : Flow} (hjoin : thenFlow.join elseFlow = .continues)
    {t u : LocalTable} (grown : t.declared <+: u.declared) (name : String) :
    thenFlow = .continues ∧ (t.Assigned name →
        (u.restore (joinAssigned thenFlow elseFlow t.assigned u.assigned)).Assigned name)
      ∨ elseFlow = .continues ∧ (u.Assigned name →
        (u.restore (joinAssigned thenFlow elseFlow t.assigned u.assigned)).Assigned name) := by
  have hthen : t.Assigned name → (u.restore t.assigned).Assigned name :=
    fun h => h.of_subset grown fun _ => id
  cases thenFlow with
  | returns =>
    cases elseFlow with
    | returns => cases hjoin
    | continues => exact .inr ⟨rfl, id⟩
  | continues =>
    cases elseFlow with
    | returns => exact .inl ⟨rfl, hthen⟩
    | continues =>
      -- if only one arm leaves the local unassigned, control has to come through that one
      by_cases helse : u.Assigned name
      · refine .inl ⟨rfl, fun h => ?_⟩
        obtain ⟨i, hplace, hi⟩ := helse
        obtain ⟨j, hplace', hj⟩ := hthen h
        have hsame : i = j := Option.some.inj (hplace.symm.trans hplace')
        exact ⟨i, hplace, SlotSet.mem_inter.2 ⟨hsame ▸ hj, hi⟩⟩
      · exact .inr ⟨rfl, fun h => absurd h helse⟩

/-! ## A path that continues -/

section Reaches

open Paths

variable {scope : Scope} {s s' : Session} {name : String} {lets : List String}

/-- Reads change nothing. -/
theorem Session.Evaluates.reaches (h : s.Evaluates s') (names : List String) :
    Reaches (s.Tracks lets name) (.steps (PlacedEvent.reads lets names)) (s'.Tracks lets name) :=
  .steps fun _ htracks => (htracks.append (by simp) (by simp)).of_assigned h.assigned_local

/-- The condition of a branch or loop. -/
theorem LowersExprs.reaches_test {s₁ s₂ : Session} {c : Expr} {r : Register} {ops : List Op}
    (condition : LowersExprs scope s [c] [r] ops s₁) (reads : Lower.markRead r s₁ = .ok ((), s₂))
    (lets : List String) (name : String) :
    Reaches (s.Tracks lets name) (.steps (PlacedEvent.reads lets c.reads)) (s₂.Tracks lets name) :=
  (condition.evaluates.trans (Lower.markRead_evaluates reads)).reaches c.reads

theorem Lower.reaches_assign {s₁ : Session} {other : String} {r : Register}
    (assigns : assignLocal other s = .ok ((), s₁)) (reads : markRead r s₁ = .ok ((), s')) :
    Reaches (s.Tracks lets name) (.steps [⟨.assign other, lets⟩]) (s'.Tracks lets name) := by
  refine .steps fun before htracks => ?_
  obtain ⟨ty, table, hassign, rfl⟩ := assignLocal_ok.1 assigns
  have hread := markRead_evaluates reads
  by_cases hname : other = name
  · subst hname
    exact ⟨fun _ => hread.assigned_local (.of_assign s.indexed hassign),
      by simpa using htracks.declared⟩
  · have hskip : s.Tracks lets name (before ++ [⟨.assign other, lets⟩]) :=
      htracks.append (by simpa using Ne.symm hname) (by simp)
    exact hskip.of_assigned fun h => hread.assigned_local (h.assign hassign)

theorem Lower.reaches_declare {other : String} {ty : Scalar}
    (declares : declareLocal other ty s = .ok ((), s')) :
    Reaches (s.Tracks lets name) (.steps [⟨.declare other, lets⟩])
      ((s'.reserved ty).Tracks (lets ++ [other]) name) := by
  refine .steps fun before htracks => ?_
  obtain ⟨table, hdeclare, rfl⟩ := declareLocal_ok.1 declares
  constructor
  · intro hsince
    rw [List.map_append] at hsince
    have hne : name ≠ other := by
      rintro rfl
      exact not_assignedSince_declare _ name hsince
    have hassigned := htracks.assigned (hsince.of_append (by simp))
    exact (Session.evaluates_reserved _ ty).assigned_local
      (hassigned.declareLocal s.indexed hne hdeclare)
  · simp only [List.map_append, List.map_cons, List.map_nil, List.mem_append, List.mem_singleton,
      LocalEvent.declare.injEq]
    exact Or.imp_left htracks.declared

theorem LowersSimple.reaches {statement : Statement} {ops : List Op}
    (h : LowersSimple scope s statement ops s') :
    Reaches (s.Tracks lets name) (statement.placedPaths lets)
      (s'.Tracks (lets ++ statement.lets) name) := by
  have hskip : ∀ b, s'.Tracks lets name b → s'.Tracks (lets ++ statement.lets) name b :=
    fun b htracks => htracks.mono (List.subset_append_left _ _)
  cases h with
  | declare declares => exact Lower.reaches_declare declares
  | declareInit declares value assigns reads =>
    rw [Statement.placedPaths, List.cons_append, ← List.singleton_append, steps_append,
      steps_append]
    exact (Lower.reaches_declare declares).seq
      ((value.evaluates.reaches _).seq (Lower.reaches_assign assigns reads))
  | assign known value assigns reads =>
    rw [Statement.placedPaths, steps_append]
    exact ((value.evaluates.reaches _).seq (Lower.reaches_assign assigns reads)).conseq hskip
  | eval noCall value => exact (value.evaluates.reaches _).conseq hskip
  | evalCall target arity arguments binding dropped =>
    exact (((Scope.lowerCallee_evaluates target).trans (arguments.evaluates.trans
      (binding.evaluates.trans (Scope.resultRegister_evaluates dropped)))).reaches _).conseq hskip
  | printValue value typed printer reads =>
    exact ((value.evaluates.trans (Lower.markRead_evaluates reads)).reaches _).conseq hskip
  | printChar value reads =>
    exact ((value.evaluates.trans (Lower.markRead_evaluates reads)).reaches _).conseq hskip
  | printNewline => exact ((Session.Evaluates.refl _).reaches _).conseq hskip
  | printText short =>
    refine .steps fun before htracks => hskip _ ?_
    exact (htracks.append (by simp [Print.reads, PlacedEvent.reads])
      (by simp [Print.reads, PlacedEvent.reads])).of_assigned id

/-- The names that a block declares behind its first statement. -/
theorem blockLets_cons {statement : Statement} (rest : List Statement)
    (h : statement.ends = false) :
    blockLets (statement :: rest) = statement.lets ++ blockLets rest := by
  simp [blockLets, blockDeclarations, h, Statement.lets]

theorem Statement.lets_branch (c : Expr) (thenBlock elseBlock : List Statement) :
    (Statement.branch c thenBlock elseBlock).lets = blockLets thenBlock ++ blockLets elseBlock := by
  simp [lets, declarations, blockLets]

theorem Flow.ends_branch {thenFlow elseFlow : Flow} {thenBlock elseBlock : List Statement}
    (h : thenFlow.join elseFlow = .continues)
    (hthen : thenFlow = .returns ↔ blockEnds thenBlock = true)
    (helse : elseFlow = .returns ↔ blockEnds elseBlock = true) (c : Expr) :
    (Statement.branch c thenBlock elseBlock).ends = false := by
  rw [Statement.ends, ← Bool.not_eq_true, Bool.and_eq_true, ← hthen, ← helse]
  rintro ⟨rfl, rfl⟩
  cases h

/-- Some path through a block that control passes is tracked. -/
theorem LowersBlock.reaches {block : List Statement} {flow : Flow} {ops : List Op}
    (h : LowersBlock scope s block flow ops s') (hflow : flow = .continues) (lets : List String)
    (name : String) :
    Reaches (s.Tracks lets name) (Statement.blockPlacedPaths lets block)
      (s'.Tracks (lets ++ blockLets block) name) := by
  induction h generalizing lets with
  | nil s =>
    exact .steps fun before htracks => by simpa [blockLets, blockDeclarations] using htracks
  | @simple s s₁ s' statement rest flow firstOps restOps first tail ih =>
    rw [blockLets_cons rest first.ends_eq, ← List.append_assoc]
    exact first.reaches.seq (ih hflow _)
  | ret last => cases hflow
  | branchReturns => cases hflow
  | @branch s s₁ s₂ s₃ s₄ s' c r thenBlock elseBlock rest thenFlow elseFlow flow condOps thenOps
      elseOps restOps condition reads thenArm elseArm joins tail ihThen ihElse ih =>
    have htest := condition.reaches_test reads lets name
    have grown := ((s₃.extends_restored s₂.locals.assigned).trans elseArm.extends).declared
    have hends := Flow.ends_branch joins thenArm.ends_iff elseArm.ends_iff c
    rw [blockLets_cons rest hends, ← List.append_assoc]
    refine .seq (htest.seq ?_) (ih hflow _)
    rw [Statement.lets_branch, ← List.append_assoc]
    rcases Flow.exists_arm joins grown name with ⟨hthen, hassigned⟩ | ⟨helse, hassigned⟩
    · refine ((ihThen hthen lets).conseq fun b htracks => ?_).either_left
      exact (htracks.mono (List.subset_append_left _ _)).of_assigned hassigned
    · have hentry : Reaches (s₂.Tracks lets name)
          (Statement.blockPlacedPaths (lets ++ blockLets thenBlock) elseBlock)
          (s₄.Tracks (lets ++ blockLets thenBlock ++ blockLets elseBlock) name) :=
        fun before htracks => ihElse helse _ before
          ((htracks.mono (List.subset_append_left _ _)).of_assigned fun h =>
            h.of_subset thenArm.extends.declared fun _ => id)
      exact (hentry.conseq fun b htracks => htracks.of_assigned hassigned).either_right
  | @loop s s₁ s₂ s₃ s' c r body rest bodyFlow flow condOps bodyOps restOps condition reads inner
      tail ihInner ih =>
    -- no pass: what is assigned before the loop is assigned behind it
    have grown := (condition.evaluates.extends.trans
      ((Lower.markRead_evaluates reads).extends.trans inner.extends)).declared
    have hleave : Reaches (s.Tracks lets name) (.steps (PlacedEvent.reads lets c.reads))
        ((s₃.restored s.locals.assigned).Tracks (lets ++ (Statement.loop c body).lets) name) :=
      .steps fun before htracks => ((htracks.append (by simp) (by simp)).mono
        (List.subset_append_left _ _)).of_assigned fun h => h.of_subset grown fun _ => id
    rw [blockLets_cons rest rfl, ← List.append_assoc]
    exact hleave.loop.seq (ih hflow _)

theorem LowersParams.reaches {params : List Parameter} (h : LowersParams s params s') :
    Reaches (s.Tracks lets name) (.steps (params.map fun param => ⟨.assign param.name, lets⟩))
      (s'.Tracks lets name) := by
  induction h with
  | nil s => exact .steps fun before htracks => by simpa using htracks
  | @cons s s₁ s' param rest declares tail ih =>
    rw [List.map_cons, ← List.singleton_append, steps_append]
    refine .seq (.steps fun before htracks => ?_) ih
    have hreserved := s₁.evaluates_reserved param.ty
    obtain ⟨table, hdeclare, rfl⟩ := Lower.declareParam_ok.1 declares
    by_cases hname : param.name = name
    · subst hname
      exact ⟨fun _ => hreserved.assigned_local (.of_declareParam s.indexed hdeclare),
        by simpa using htracks.declared⟩
    · have hskip : s.Tracks lets name (before ++ [⟨.assign param.name, lets⟩]) :=
        htracks.append (by simpa using Ne.symm hname) (by simp)
      exact hskip.of_assigned fun h => hreserved.assigned_local (h.declareParam hdeclare)

end Reaches

/-! ## A path to the read -/

section Meets

open Paths

variable {scope : Scope} {s s' : Session} {title name : String} {lets : List String}

/-- The local has no slot unless it is a parameter or declared before in the text. -/
def Session.SlotWithin (s : Session) (params lets : List String) (name : String) : Prop :=
  (s.locals.typeOf? name).isSome = true → name ∈ params ∨ name ∈ lets

/-- The event reads the local where it is not assigned. The local is a parameter or declared
before in the text, and the path declares it only if the text does so before. -/
structure ReadsUnassigned (params : List String) (name : String) (before : List PlacedEvent)
    (read : PlacedEvent) : Prop where
  event : read.event = .read name
  unassigned : ¬AssignedSince (before.map (·.event)) name
  known : name ∈ params ∨ name ∈ read.lets
  declared : .declare name ∈ before.map (·.event) → name ∈ read.lets

theorem LocalTable.Unassigned.isSome_typeOf? {t : LocalTable} (h : t.Unassigned name) :
    (t.typeOf? name).isSome = true := by
  obtain ⟨i, hplace, _⟩ := h
  obtain ⟨slot, hslot, rfl⟩ := name_of_place? hplace
  simpa [typeOf?] using ⟨slot, List.mem_of_getElem? hslot, rfl⟩

namespace Session.SlotWithin

variable {params : List String}

theorem evaluates (h : s.SlotWithin params lets name) (hstep : s.Evaluates s') :
    s'.SlotWithin params lets name := by
  rwa [SlotWithin, hstep.typeOf?_eq]

/-- The declarations of a piece of text give slots to no other names. -/
theorem declare (h : s.SlotWithin params lets name) {declarations : List Parameter}
    (heq : s'.locals.typeOf? name
      = (s.locals.typeOf? name).or (declaredType? declarations name)) :
    s'.SlotWithin params (lets ++ declarations.map (·.name)) name := by
  intro hslot
  rw [heq, Option.isSome_or, Bool.or_eq_true] at hslot
  rcases hslot with hslot | hslot
  · exact (h hslot).imp_right (List.mem_append_left _)
  · have hmem : name ∈ declarations.map (·.name) := by
      simpa [declaredType?] using hslot
    exact .inr (List.mem_append_right _ hmem)

end Session.SlotWithin

theorem Session.Blames.meets {params names : List String}
    (h : s.Blames names (.unassignedLocal title name)) (hslot : s.SlotWithin params lets name) :
    Meets (ReadsUnassigned params name) (s.Tracks lets name)
      (.steps (PlacedEvent.reads lets names)) := by
  obtain ⟨hmem, hunassigned⟩ := h.unassigned title name rfl
  obtain ⟨first, last, rfl⟩ := List.append_of_mem hmem
  rw [PlacedEvent.reads, List.map_append, List.map_cons]
  refine .steps fun before htracks => ?_
  have hskip : s.Tracks lets name (before ++ PlacedEvent.reads lets first) :=
    htracks.append (by simp) (by simp)
  exact ⟨rfl, fun hsince => hunassigned.not_assigned (hskip.assigned hsince),
    hslot hunassigned.isSome_typeOf?, hskip.declared⟩

theorem StopsAt.meets {params : List String} {statement : Statement}
    (h : StopsAt scope (.unassignedLocal title name) s statement)
    (hslot : s.SlotWithin params lets name) :
    Meets (ReadsUnassigned params name) (s.Tracks lets name) (statement.placedPaths lets) := by
  cases h with
  | declare declares value =>
    have hdeclared := hslot.declare (Lower.declareLocal_typeOf?_eq declares name)
    rw [Statement.placedPaths, List.cons_append, ← List.singleton_append, steps_append,
      steps_append]
    have hvalue := value.meets (hdeclared.evaluates (Session.evaluates_reserved _ _))
    exact .seq_right (Lower.reaches_declare declares) (hvalue.seq_left ⟨_, _, rfl, rfl⟩)
  | assign value =>
    rw [Statement.placedPaths, steps_append]
    exact (value.meets hslot).seq_left ⟨_, _, rfl, rfl⟩
  | eval value => exact value.meets hslot
  | print value => exact value.meets hslot
  | ret value => exact (value.meets hslot).seq_left ⟨_, _, rfl, rfl⟩
  | retNothing declared missing => cases missing
  | @branch c thenBlock elseBlock test =>
    obtain ⟨path, flow, hpath⟩ := Statement.exists_blockPlacedPath lets thenBlock
    exact (test.meets hslot).seq_left ⟨path, flow, .inl hpath⟩
  | loop test => exact (test.meets hslot).loop_test
  | other other => cases other

/-- Where lowering stops for an unassigned local, some path reads it unassigned. -/
theorem StopsBlock.meets {params : List String} {block : List Statement}
    (h : StopsBlock scope (.unassignedLocal title name) s block)
    (hslot : s.SlotWithin params lets name) :
    Meets (ReadsUnassigned params name) (s.Tracks lets name)
      (Statement.blockPlacedPaths lets block) := by
  induction h generalizing lets with
  | @here s statement rest stops =>
    exact (stops.meets hslot).seq_left (Statement.exists_blockPlacedPath _ rest)
  | @thenArm s s₁ s₂ c r condOps thenBlock elseBlock rest condition reads arm ih =>
    have htest := condition.reaches_test reads lets name
    have hentered := hslot.evaluates (condition.evaluates.trans (Lower.markRead_evaluates reads))
    exact (Meets.seq_right htest (ih hentered).either_left).seq_left
      (Statement.exists_blockPlacedPath _ rest)
  | @elseArm s s₁ s₂ s₃ c r thenFlow condOps thenOps thenBlock elseBlock rest condition reads
      thenArm arm ih =>
    have htest := condition.reaches_test reads lets name
    have hentered := hslot.evaluates (condition.evaluates.trans (Lower.markRead_evaluates reads))
    have hpassed : (s₃.restored s₂.locals.assigned).SlotWithin params
        (lets ++ blockLets thenBlock) name := hentered.declare (thenArm.typeOf?_eq name)
    have hentry : ∀ before, s₂.Tracks lets name before →
        (s₃.restored s₂.locals.assigned).Tracks (lets ++ blockLets thenBlock) name before :=
      fun before htracks => (htracks.mono (List.subset_append_left _ _)).of_assigned fun h =>
        h.of_subset thenArm.extends.declared fun _ => id
    exact (Meets.seq_right (htest.conseq hentry) (ih hpassed).either_right).seq_left
      (Statement.exists_blockPlacedPath _ rest)
  | @body s s₁ s₂ c r condOps block rest condition reads inner ih =>
    have htest := condition.reaches_test reads lets name
    have hentered := hslot.evaluates (condition.evaluates.trans (Lower.markRead_evaluates reads))
    exact (Meets.loop_body htest ((ih hentered).seq_left ⟨_, _, rfl, rfl⟩)).seq_left
      (Statement.exists_blockPlacedPath _ rest)
  | @later s s₁ statement rest ops first tail ih =>
    have hends : statement.ends = false := by
      have hiff := first.ends_iff
      simpa [blockEnds] using hiff
    have hlets : blockLets [statement] = statement.lets := by
      rw [blockLets_cons [] hends]
      exact List.append_nil _
    have hfirst := first.reaches rfl lets name
    rw [Statement.blockPlacedPaths, Statement.blockPlacedPaths, seq_steps_nil, hlets] at hfirst
    have hpassed := hslot.declare (first.typeOf?_eq name)
    exact .seq_right hfirst (ih (hlets ▸ hpassed))

end Meets

/-! ## Functions -/

/-- A function that is refused for an unassigned local has a path that reads the local where it
is declared, by a declaration that stands before the read in the text where control can get. On
the path the local is pending, or nothing happened to it: its declaration is then in a part of
the text that the path has left out. -/
theorem Shared.unassigned_read_reachable {shared : Shared} {function : SourceFunction}
    {title name : String}
    (h : shared.lowerFunction function = .error (.refused (.unassignedLocal title name))) :
    ∃ path flow pre read post, function.placedPaths path flow
      ∧ function.paths (path.map (·.event)) flow
      ∧ path = pre ++ read :: post ∧ read.event = .read name ∧ name ∈ read.lets
      ∧ (Pending (pre.map (·.event)) name
        ∨ .declare name ∉ pre.map (·.event) ∧ .assign name ∉ pre.map (·.event)) := by
  obtain ⟨s, params, hbody⟩ := lowerFunction_stops h rfl
  have stops : StopsBlock { shared, function } (.unassignedLocal title name) s function.body := by
    rcases hbody with stops | ⟨hother, _⟩
    · exact stops
    · cases hother
  have hstart : function.session.Tracks [] name [] := by
    constructor
    · rintro ⟨_, _, heq, _⟩
      simp at heq
    · simp
  have hslot : s.SlotWithin (function.params.map (·.name)) [] name := by
    intro hslot
    have hempty : function.session.locals.typeOf? name = none := rfl
    rw [params.typeOf?_eq, hempty, Option.none_or] at hslot
    exact .inl (by simpa [declaredType?] using hslot)
  obtain ⟨_, ⟨rfl, _⟩, htracks⟩ := params.reaches [] hstart
  rw [List.nil_append] at htracks
  obtain ⟨pre, read, post, flow, hpath, hread⟩ := stops.meets hslot _ htracks
  have hplaced : function.placedPaths
      (function.params.map (fun param => ⟨.assign param.name, []⟩) ++ (pre ++ read :: post)) flow :=
    Paths.seq_of_continues ⟨rfl, rfl⟩ hpath
  refine ⟨_, flow, _, read, post, hplaced, SourceFunction.paths_of_placed hplaced,
    (List.append_assoc _ _ _).symm, hread.event, ?_,
    pending_of_not_assignedSince hread.unassigned⟩
  rcases hread.known with hparam | hlocal
  · -- a parameter is assigned at the start, so the path has declared the local since
    by_contra hlets
    have hdeclare := mt hread.declared hlets
    refine hread.unassigned (assignedSince_of_mem ?_ hdeclare)
    obtain ⟨param, hmem, rfl⟩ := List.mem_map.1 hparam
    simpa using .inl ⟨param, hmem, rfl⟩
  · exact hlocal

namespace Sample

/-- Leaves a local unassigned in one arm of a branch in a loop, where the other arms assign it
or return. -/
def partly : SourceFunction where
  path := ""
  moduleName := "m"
  name := "f"
  params := [⟨"n", .u8⟩]
  body :=
    [.declare "x" .u8 (some (.literal ⟨1, .u8⟩)),
      .loop (.var "n")
        [.declare "x" .u8 none,
          .branch (.var "n") [.assign "x" (.var "n")]
            [.branch (.binary .eq (.var "n") (.literal ⟨2, .u8⟩)) [.ret none] []],
          .print (.value (.var "x"))]]

/-- Declares a local in one arm of a branch and reads it behind the branch. -/
def armLocal : SourceFunction where
  path := ""
  moduleName := "m"
  name := "f"
  params := [⟨"c", .u8⟩]
  body :=
    [.branch (.var "c") [.declare "x" .u8 (some (.literal ⟨1, .u8⟩))] [],
      .print (.value (.var "x"))]

end Sample

namespace Shared

theorem unassigned_read_reachable_partly :
    ∃ shared : Shared,
      shared.lowerFunction Sample.partly = .error (.refused (.unassignedLocal "m::f" "x"))
      ∧ ∃ path flow pre read post, Sample.partly.placedPaths path flow
        ∧ Sample.partly.paths (path.map (·.event)) flow
        ∧ path = pre ++ read :: post ∧ read.event = .read "x" ∧ "x" ∈ read.lets
        ∧ (Pending (pre.map (·.event)) "x"
          ∨ .declare "x" ∉ pre.map (·.event) ∧ .assign "x" ∉ pre.map (·.event)) := by
  have herror : ((Sample.shared Sample.partly "m_f$u8").lowerFunction Sample.partly).map
      (fun _ => ()) = .error (.refused (.unassignedLocal "m::f" "x")) := by decide +kernel
  have h := map_eq_error.1 herror
  exact ⟨_, h, unassigned_read_reachable h⟩

/-- The sample is refused, but on none of its paths the local is pending where it is read: one
path assigns it, and the other does not declare it. -/
theorem unassigned_read_not_pending :
    ∃ shared : Shared,
      shared.lowerFunction Sample.armLocal = .error (.refused (.unassignedLocal "m::f" "x"))
      ∧ ∀ path flow pre post, Sample.armLocal.paths path flow →
        path = pre ++ .read "x" :: post → ¬Pending pre "x" := by
  have herror : ((Sample.shared Sample.armLocal "m_f$u8").lowerFunction Sample.armLocal).map
      (fun _ => ()) = .error (.refused (.unassignedLocal "m::f" "x")) := by decide +kernel
  refine ⟨_, map_eq_error.1 herror, ?_⟩
  rintro path flow pre post hpath hsplit ⟨first, last, rfl, _, hassign⟩
  simp only [List.append_assoc, List.cons_append] at hsplit
  obtain ⟨arm, hpath, harm, _⟩ : ∃ arm, path = .assign "c" :: .read "c" :: (arm ++ [.read "x"])
      ∧ (arm = [.declare "x", .assign "x"] ∨ arm = []) ∧ flow = .continues := by
    simpa [SourceFunction.paths, Sample.armLocal, Statement.blockPaths, Statement.paths, Paths.seq,
      Paths.steps, Paths.either, Expr.reads, Print.reads] using hpath
  rcases harm with rfl | rfl
  · -- the assignment follows right behind the declaration
    rw [hpath] at hsplit
    have hlast : [.assign "x", .read "x"] = last ++ .read "x" :: post := by
      rcases first with _ | ⟨a, _ | ⟨b, _ | ⟨c, first⟩⟩⟩
      · simp at hsplit
      · simp at hsplit
      · simp only [List.cons_append, List.cons.injEq, List.nil_append] at hsplit
        exact hsplit.2.2.2
      · have hmem : LocalEvent.declare "x" ∈ [.assign "x", .read "x"] := by
          simp only [List.cons_append, List.cons.injEq, List.nil_append] at hsplit
          simp [hsplit.2.2.2]
        simp at hmem
    cases last with
    | nil => simp at hlast
    | cons event last =>
      obtain ⟨rfl, _⟩ := List.cons.inj hlast
      simp at hassign
  · have hdeclare : LocalEvent.declare "x" ∈ path := by simp [hsplit]
    simp [hpath] at hdeclare

end Shared

end ScalarC
