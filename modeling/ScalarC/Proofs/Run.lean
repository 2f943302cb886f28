import ScalarC.Code
import ScalarC.Scalar.Range

/-!
# Runs

What source functions and register code have in common when they run: typed
values, the events that can be observed, and the meaning of operators, conversions
and external functions, which both sides share. A run threads the events so far and
has no result where it gets stuck or spends its fuel. Two runs are related if from
every history both have no result, or both end in related results with the same
history.
-/

namespace ScalarC

/-- A number with the scalar type under which it is held. -/
structure Value where
  ty : Scalar
  raw : Int
deriving DecidableEq, Repr

/-- What a print routine is given. -/
inductive Printed where
  | nothing
  | value (v : Value)
  | text (s : String)
deriving DecidableEq, Repr

/-- What can be observed of a run. -/
inductive Event where
  | call (callee : Symbol) (args : List Int)
  | print (routine : Routine) (printed : Printed)
deriving DecidableEq, Repr

/-- The events so far, the latest at the end. -/
abbrev History := List Event

/-- The meaning of what both sides leave open. Each part may be undefined. -/
structure Meaning where
  /-- The number that an operator yields. -/
  binary : Operator → Value → Value → Option Int
  /-- The number that stands for a value in another type. -/
  convert : Value → Scalar → Option Int
  /-- The number that a function with a return type hands back for a value. -/
  returned : Value → Scalar → Option Int
  /-- What an external function does behind a history: its result and its events. -/
  external : History → Symbol → List Int → Option (Option Int × List Event)

namespace Meaning

/-- The numbers that stand for values in other types, one by one. -/
def convertAll (m : Meaning) : List Value → List Scalar → Option (List Int)
  | [], [] => some []
  | v :: values, ty :: types => do
    let raw ← m.convert v ty
    let raws ← m.convertAll values types
    return raw :: raws
  | _, _ => none

end Meaning

/-- A computation that records events and may have no result. -/
abbrev Run := StateT History Option

/-- How control leaves a statement or an operation. -/
inductive Outcome where
  | continues
  | returned (value : Option Int)
deriving DecidableEq, Repr

/-- How control leaves one pass through a loop. -/
inductive Pass where
  | again
  | leave
  | returned (value : Option Int)
deriving DecidableEq, Repr

/-- A pass whose body was run. -/
def Outcome.pass : Outcome → Pass
  | continues => .again
  | returned value => .returned value

namespace Run

variable {α β γ δ σ τ : Type}

/-- A result that may be missing. -/
def ofOption (result : Option α) : Run α :=
  fun history => result.map fun a => (a, history)

@[simp] theorem ofOption_some (a : α) : ofOption (some a) = pure a := rfl

theorem ofOption_bind (result : Option α) (f : α → Option β) :
    ofOption (result >>= f) = ofOption result >>= fun a => ofOption (f a) := by
  cases result <;> rfl

def emit (event : Event) : Run Unit :=
  fun history => some ((), history ++ [event])

/-- A call of an external function. -/
def external (m : Meaning) (callee : Symbol) (args : List Int) : Run (Option Int) :=
  fun history => (m.external history callee args).map fun (result, events) =>
    (result, history ++ events)

/-- Goes on behind a statement or operation unless it returned. -/
def andThen (x : Run (Outcome × σ)) (next : σ → Run (Outcome × σ)) : Run (Outcome × σ) := do
  let (outcome, s) ← x
  match outcome with
  | .continues => next s
  | .returned value => return (.returned value, s)

@[simp] theorem andThen_continues (s : σ) (next : σ → Run (Outcome × σ)) :
    andThen (pure (.continues, s)) next = next s := by
  simp [andThen]

theorem andThen_bind (x : Run α) (f : α → Run (Outcome × σ)) (next : σ → Run (Outcome × σ)) :
    andThen (x >>= f) next = x >>= fun a => andThen (f a) next := by
  simp [andThen]

theorem andThen_assoc (x : Run (Outcome × σ)) (f g : σ → Run (Outcome × σ)) :
    andThen (andThen x f) g = andThen x fun s => andThen (f s) g := by
  simp only [andThen, bind_assoc]
  congr 1
  funext result
  obtain ⟨outcome, s⟩ := result
  cases outcome <;> simp

/-- Repeats a pass through a loop until it leaves, at most `fuel` times. -/
def iterate (pass : σ → Run (Pass × σ)) : Nat → σ → Run (Outcome × σ)
  | 0, _ => ofOption none
  | fuel + 1, s => do
    let (control, s) ← pass s
    match control with
    | .again => iterate pass fuel s
    | .leave => return (.continues, s)
    | .returned value => return (.returned value, s)

/-- Both runs have no result, or related results with the same history. -/
def Rel (R : α → β → Prop) (x : Run α) (y : Run β) : Prop :=
  ∀ history, Option.Rel (fun a b => R a.1 b.1 ∧ a.2 = b.2) (x history) (y history)

/-- Control passes, in a state that is related to a result. -/
def Passes (R : σ → β → Prop) (a : Outcome × σ) (b : β) : Prop :=
  a.1 = .continues ∧ R a.2 b

namespace Rel

theorem pure {R : α → β → Prop} {a : α} {b : β} (h : R a b) :
    Rel R (Pure.pure a) (Pure.pure b) :=
  fun _ => .some ⟨h, rfl⟩

theorem bind {R : α → β → Prop} {S : γ → δ → Prop} {x : Run α} {y : Run β}
    {f : α → Run γ} {g : β → Run δ} (hx : Rel R x y)
    (hf : ∀ a b, R a b → Rel S (f a) (g b)) : Rel S (x >>= f) (y >>= g) := by
  intro history
  have hrun := hx history
  simp only [Bind.bind, StateT.bind]
  generalize x history = left at hrun ⊢
  generalize y history = right at hrun ⊢
  cases hrun with
  | none => exact .none
  | some hab =>
    rename_i a b
    obtain ⟨hR, heq⟩ := hab
    simp only [Option.bind]
    rw [heq]
    exact hf a.1 b.1 hR b.2

theorem mono {R S : α → β → Prop} {x : Run α} {y : Run β} (h : Rel R x y)
    (hRS : ∀ a b, R a b → S a b) : Rel S x y := by
  intro history
  have hrun := h history
  generalize x history = left at hrun ⊢
  generalize y history = right at hrun ⊢
  cases hrun with
  | none => exact .none
  | some hab => exact .some ⟨hRS _ _ hab.1, hab.2⟩

/-- A run is related to itself by equality. -/
theorem refl (x : Run α) : Rel Eq x x := by
  intro history
  cases x history with
  | none => exact .none
  | some a => exact .some ⟨rfl, rfl⟩

/-- Runs that are related by equality are the same. -/
theorem eq {x y : Run α} (h : Rel Eq x y) : x = y := by
  funext history
  have hrun := h history
  generalize x history = left at hrun ⊢
  generalize y history = right at hrun ⊢
  cases hrun with
  | none => rfl
  | some hab => rw [Prod.ext hab.1 hab.2]

/-- A result that both sides look up, and use in the same way. -/
theorem bind_same {S : γ → δ → Prop} {x : Run α} {f : α → Run γ} {g : α → Run δ}
    (h : ∀ a, Rel S (f a) (g a)) : Rel S (x >>= f) (x >>= g) :=
  (refl x).bind fun a _ hab => hab ▸ h a

/-- The second run may go on to compute from its result. -/
theorem map_right {R : α → β → Prop} {S : α → γ → Prop} {x : Run α} {y : Run β} {f : β → γ}
    (h : Rel R x y) (hf : ∀ a b, R a b → S a (f b)) :
    Rel S x (y >>= fun b => Pure.pure (f b)) := by
  rw [← bind_pure x]
  exact h.bind fun a b hab => .pure (hf a b hab)

theorem of_map_right {R : α → γ → Prop} {x : Run α} {y : Run β} {f : β → γ}
    (h : Rel R x (y >>= fun b => Pure.pure (f b))) : Rel (fun a b => R a (f b)) x y := by
  intro history
  have hrun := h history
  simp only [Bind.bind, StateT.bind] at hrun
  generalize x history = left at hrun ⊢
  generalize y history = right at hrun ⊢
  cases right with
  | none =>
    cases hrun with
    | none => exact .none
  | some b =>
    cases hrun with
    | some hab => exact .some hab

/-- Where the first run does not return, both go on. -/
theorem andThen_passes {R : σ → β → Prop} {S : Outcome × σ → δ → Prop} {x : Run (Outcome × σ)}
    {y : Run β} {f : σ → Run (Outcome × σ)} {g : β → Run δ} (h : Rel (Passes R) x y)
    (hnext : ∀ s b, R s b → Rel S (f s) (g b)) : Rel S (Run.andThen x f) (y >>= g) := by
  refine h.bind ?_
  rintro ⟨_, s⟩ b ⟨rfl, hR⟩
  exact hnext s b hR

/-- Runs that go on unless they returned. -/
theorem andThen {R S : Outcome × σ → Outcome × τ → Prop} {x : Run (Outcome × σ)}
    {y : Run (Outcome × τ)} {f : σ → Run (Outcome × σ)} {g : τ → Run (Outcome × τ)}
    (h : Rel (fun a b => a.1 = b.1 ∧ R a b) x y)
    (hnext : ∀ s t, R (.continues, s) (.continues, t) → Rel S (f s) (g t))
    (hreturned : ∀ value s t, R (.returned value, s) (.returned value, t) →
      S (.returned value, s) (.returned value, t)) :
    Rel S (Run.andThen x f) (Run.andThen y g) := by
  refine h.bind ?_
  rintro ⟨outcome, s⟩ ⟨_, t⟩ ⟨rfl, hR⟩
  cases outcome with
  | continues => exact hnext s t hR
  | returned value => exact .pure (hreturned value s t hR)

/-- Loops are related if each pass relates related states again. -/
theorem iterate {R : σ → τ → Prop} {S : Outcome × σ → Outcome × τ → Prop}
    {pass : σ → Run (Pass × σ)} {pass' : τ → Run (Pass × τ)}
    (hpass : ∀ s t, R s t → Rel (fun a b => a.1 = b.1
      ∧ (a.1 = .again → R a.2 b.2)
      ∧ (a.1 = .leave → S (.continues, a.2) (.continues, b.2))
      ∧ (∀ value, a.1 = .returned value → S (.returned value, a.2) (.returned value, b.2)))
      (pass s) (pass' t))
    (fuel : Nat) {s : σ} {t : τ} (h : R s t) :
    Rel S (Run.iterate pass fuel s) (Run.iterate pass' fuel t) := by
  induction fuel generalizing s t with
  | zero => exact fun _ => .none
  | succ fuel ih =>
    refine (hpass s t h).bind ?_
    rintro ⟨control, s⟩ ⟨_, t⟩ ⟨rfl, hagain, hleave, hreturned⟩
    cases control with
    | again => exact ih (hagain rfl)
    | leave => exact .pure (hleave rfl)
    | returned value => exact .pure (hreturned value rfl)

end Rel

end Run

end ScalarC
