import ScalarC.Lowering.Statement

/-!
# Control paths

The paths through a piece of code, as the sequences of events along them: either arm
of a branch, any number of passes through a loop, and an end where control leaves the
function. A path ignores what conditions evaluate to.

`Triple ok P X Q` says of all paths of `X` at once that each event is allowed by what
happened before it, counted from the start of the function. It is a partial
correctness triple whose assertions are about the events so far.

## Main definitions

* `Paths`, with `steps`, `stop`, `seq`, `either` and `Loop`.
* `SafeFrom ok before path`: every event of the path is allowed behind `before`.
* `Triple`, with a rule for each way to build paths.
-/

namespace ScalarC

/-- Paths through a piece of code, each with how control leaves the code. -/
def Paths (α : Type) := List α → Flow → Prop

namespace Paths

variable {α : Type}

/-- A fixed sequence of events, behind which control continues. -/
def steps (events : List α) : Paths α :=
  fun path flow => path = events ∧ flow = .continues

/-- Control leaves the function. -/
def stop : Paths α :=
  fun path flow => path = [] ∧ flow = .returns

/-- What follows is entered only where control continues. -/
def seq (X Y : Paths α) : Paths α :=
  fun path flow => (X path .returns ∧ flow = .returns)
    ∨ ∃ first rest, path = first ++ rest ∧ X first .continues ∧ Y rest flow

def either (X Y : Paths α) : Paths α :=
  fun path flow => X path flow ∨ Y path flow

/-- Any number of passes through a body, with the condition before each and at the end. -/
inductive Loop (condition body : Paths α) : Paths α where
  | leave {path : List α} (test : condition path .continues) :
      Loop condition body path .continues
  | stopTest {path : List α} (test : condition path .returns) :
      Loop condition body path .returns
  | stopBody {first inner : List α} (test : condition first .continues)
      (pass : body inner .returns) : Loop condition body (first ++ inner) .returns
  | again {first inner rest : List α} {flow : Flow} (test : condition first .continues)
      (pass : body inner .continues) (tail : Loop condition body rest flow) :
      Loop condition body (first ++ inner ++ rest) flow

theorem seq_of_continues {X Y : Paths α} {first rest : List α} {flow : Flow}
    (hX : X first .continues) (hY : Y rest flow) : seq X Y (first ++ rest) flow :=
  .inr ⟨first, rest, rfl, hX, hY⟩

theorem steps_nil_seq (X : Paths α) : seq (steps []) X = X := by
  funext path flow
  apply propext
  constructor
  · rintro (⟨⟨_, h⟩, _⟩ | ⟨_, rest, rfl, ⟨rfl, _⟩, hX⟩)
    · cases h
    · exact hX
  · intro hX
    exact .inr ⟨[], path, rfl, ⟨rfl, rfl⟩, hX⟩

theorem steps_append (first rest : List α) :
    steps (first ++ rest) = seq (steps first) (steps rest) := by
  funext path flow
  apply propext
  constructor
  · rintro ⟨rfl, rfl⟩
    exact seq_of_continues ⟨rfl, rfl⟩ ⟨rfl, rfl⟩
  · rintro (⟨⟨_, h⟩, _⟩ | ⟨_, _, rfl, ⟨rfl, _⟩, rfl, rfl⟩)
    · cases h
    · exact ⟨rfl, rfl⟩

theorem seq_assoc (X Y Z : Paths α) : seq (seq X Y) Z = seq X (seq Y Z) := by
  funext path flow
  apply propext
  constructor
  · rintro (⟨(⟨hX, _⟩ | ⟨first, rest, rfl, hX, hY⟩), rfl⟩ |
      ⟨_, last, rfl, (⟨_, h⟩ | ⟨first, rest, rfl, hX, hY⟩), hZ⟩)
    · exact .inl ⟨hX, rfl⟩
    · exact .inr ⟨first, rest, rfl, hX, .inl ⟨hY, rfl⟩⟩
    · cases h
    · exact .inr ⟨first, rest ++ last, by simp, hX, .inr ⟨rest, last, rfl, hY, hZ⟩⟩
  · rintro (⟨hX, rfl⟩ | ⟨first, _, rfl, hX, (⟨hY, rfl⟩ | ⟨rest, last, rfl, hY, hZ⟩)⟩)
    · exact .inl ⟨.inl ⟨hX, rfl⟩, rfl⟩
    · exact .inl ⟨.inr ⟨first, _, rfl, hX, hY⟩, rfl⟩
    · exact .inr ⟨first ++ rest, last, by simp, .inr ⟨first, rest, rfl, hX, hY⟩, hZ⟩

variable {ok : List α → α → Prop} {P Q R I J : List α → Prop} {X Y : Paths α}

/-- Every event of the path is allowed by the events before it. -/
def SafeFrom (ok : List α → α → Prop) : List α → List α → Prop
  | _, [] => True
  | before, event :: rest => ok before event ∧ SafeFrom ok (before ++ [event]) rest

theorem safeFrom_append {before first rest : List α} :
    SafeFrom ok before (first ++ rest) ↔
      SafeFrom ok before first ∧ SafeFrom ok (before ++ first) rest := by
  induction first generalizing before with
  | nil => simp [SafeFrom]
  | cons event first ih => simp [SafeFrom, ih, and_assoc]

theorem SafeFrom.ok_of_eq {before path pre post : List α} {event : α}
    (h : SafeFrom ok before path) (heq : path = pre ++ event :: post) :
    ok (before ++ pre) event := by
  rw [heq, safeFrom_append] at h
  exact h.2.1

/-- Events that are allowed anywhere. -/
theorem safeFrom_of_forall_mem {before path : List α} (h : ∀ event ∈ path, ∀ b, ok b event) :
    SafeFrom ok before path := by
  induction path generalizing before with
  | nil => trivial
  | cons event path ih =>
    obtain ⟨hfirst, hrest⟩ := List.forall_mem_cons.1 h
    exact ⟨hfirst before, ih hrest⟩

/-- Behind events with `P`, every event of a path through `X` is allowed, and `Q` holds
where control continues. -/
def Triple (ok : List α → α → Prop) (P : List α → Prop) (X : Paths α) (Q : List α → Prop) :
    Prop :=
  ∀ before path flow, P before → X path flow →
    SafeFrom ok before path ∧ (flow = .continues → Q (before ++ path))

namespace Triple

theorem conseq {P' Q' : List α → Prop} (h : Triple ok P X Q) (hP : ∀ b, P' b → P b)
    (hQ : ∀ b, Q b → Q' b) : Triple ok P' X Q' := by
  intro before path flow hbefore hpath
  obtain ⟨hsafe, hpost⟩ := h before path flow (hP before hbefore) hpath
  exact ⟨hsafe, fun hflow => hQ _ (hpost hflow)⟩

theorem steps {events : List α}
    (h : ∀ before, P before → SafeFrom ok before events ∧ Q (before ++ events)) :
    Triple ok P (steps events) Q := by
  rintro before _ _ hbefore ⟨rfl, rfl⟩
  exact ⟨(h before hbefore).1, fun _ => (h before hbefore).2⟩

theorem stop : Triple ok P stop Q := by
  rintro before _ _ _ ⟨rfl, rfl⟩
  exact ⟨trivial, nofun⟩

/-- Control does not get here. -/
theorem unreachable : Triple ok (fun _ => False) X Q :=
  fun _ _ _ h => h.elim

theorem seq (hX : Triple ok P X R) (hY : Triple ok R Y Q) : Triple ok P (seq X Y) Q := by
  rintro before path flow hbefore (⟨hpath, rfl⟩ | ⟨first, rest, rfl, hfirst, hrest⟩)
  · exact ⟨(hX _ _ _ hbefore hpath).1, nofun⟩
  · obtain ⟨hsafe, hmiddle⟩ := hX _ _ _ hbefore hfirst
    obtain ⟨hsafe', hpost⟩ := hY _ _ _ (hmiddle rfl) hrest
    rw [safeFrom_append, ← List.append_assoc]
    exact ⟨⟨hsafe, hsafe'⟩, hpost⟩

theorem either (hX : Triple ok P X Q) (hY : Triple ok P Y Q) : Triple ok P (either X Y) Q := by
  rintro before path flow hbefore (hpath | hpath)
  · exact hX _ _ _ hbefore hpath
  · exact hY _ _ _ hbefore hpath

/-- The invariant `I` holds before every test, and `J` before every pass and at the end. -/
theorem loop (htest : Triple ok I X J) (hpass : Triple ok J Y I) :
    Triple ok I (Loop X Y) J := by
  intro before path flow hbefore hpath
  induction hpath generalizing before with
  | leave test => exact htest _ _ _ hbefore test
  | stopTest test => exact ⟨(htest _ _ _ hbefore test).1, nofun⟩
  | stopBody test pass =>
    obtain ⟨hsafe, hmiddle⟩ := htest _ _ _ hbefore test
    obtain ⟨hsafe', _⟩ := hpass _ _ _ (hmiddle rfl) pass
    exact ⟨safeFrom_append.2 ⟨hsafe, hsafe'⟩, nofun⟩
  | again test pass tail ih =>
    obtain ⟨hsafe, hmiddle⟩ := htest _ _ _ hbefore test
    obtain ⟨hsafe', hagain⟩ := hpass _ _ _ (hmiddle rfl) pass
    obtain ⟨hsafe'', hpost⟩ := ih _ (hagain rfl)
    rw [safeFrom_append, safeFrom_append]
    simp only [← List.append_assoc] at hsafe'' hpost ⊢
    exact ⟨⟨⟨hsafe, hsafe'⟩, hsafe''⟩, hpost⟩

/-- What stays true when more happens can be carried along. -/
theorem frame (hR : ∀ before path, R before → R (before ++ path)) (h : Triple ok P X Q) :
    Triple ok (fun b => P b ∧ R b) X (fun b => Q b ∧ R b) := by
  rintro before path flow ⟨hP, hR'⟩ hpath
  obtain ⟨hsafe, hpost⟩ := h _ _ _ hP hpath
  exact ⟨hsafe, fun hflow => ⟨hpost hflow, hR before path hR'⟩⟩

end Triple

end Paths

end ScalarC
