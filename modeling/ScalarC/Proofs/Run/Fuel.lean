import ScalarC.Proofs.Run.Source

/-!
# More fuel does not change a run

Fuel bounds the passes through each loop and the depth of calls. A source function
that ends with some fuel ends in the same way with more, so it ends in at most one
way: fuel is only a means to define what a function does.
-/

namespace ScalarC

namespace Run

variable {α β σ : Type}

/-- Where the first run has a result, the second has the same. -/
def Below (x y : Run α) : Prop :=
  ∀ history result, x history = some result → y history = some result

namespace Below

theorem refl (x : Run α) : Below x x :=
  fun _ _ h => h

theorem bind {x y : Run α} {f g : α → Run β} (hx : Below x y) (hf : ∀ a, Below (f a) (g a)) :
    Below (x >>= f) (y >>= g) := by
  intro history result h
  obtain ⟨⟨a, later⟩, ha, hrest⟩ := Option.bind_eq_some_iff.1 h
  exact Option.bind_eq_some_iff.2 ⟨(a, later), hx history _ ha, hf a later result hrest⟩

/-- The runs begin alike. -/
theorem bind_same {x : Run α} {f g : α → Run β} (hf : ∀ a, Below (f a) (g a)) :
    Below (x >>= f) (x >>= g) :=
  (refl x).bind hf

/-- The runs go on alike. -/
theorem bind_left {x y : Run α} (hx : Below x y) (f : α → Run β) : Below (x >>= f) (y >>= f) :=
  hx.bind fun a => refl (f a)

theorem ite {p : Prop} [Decidable p] {x x' y y' : Run α} (hx : Below x x') (hy : Below y y') :
    Below (if p then x else y) (if p then x' else y') := by
  by_cases hp : p
  · simpa only [hp, if_true] using hx
  · simpa only [hp, if_false] using hy

theorem andThen {x y : Run (Outcome × σ)} {f g : σ → Run (Outcome × σ)} (hx : Below x y)
    (hf : ∀ s, Below (f s) (g s)) : Below (Run.andThen x f) (Run.andThen y g) := by
  refine hx.bind fun result => ?_
  obtain ⟨outcome, s⟩ := result
  cases outcome with
  | continues => exact hf s
  | returned value => exact refl _

/-- A loop with more fuel, each pass of which may have more fuel as well. -/
theorem iterate {pass pass' : σ → Run (Pass × σ)} (hpass : ∀ s, Below (pass s) (pass' s))
    {fuel fuel' : Nat} (hfuel : fuel ≤ fuel') (s : σ) :
    Below (Run.iterate pass fuel s) (Run.iterate pass' fuel' s) := by
  induction fuel generalizing fuel' s with
  | zero =>
    intro history result h
    cases h
  | succ fuel ih =>
    obtain ⟨more, rfl⟩ := Nat.exists_eq_add_of_lt hfuel
    refine (hpass s).bind fun result => ?_
    obtain ⟨control, s⟩ := result
    cases control with
    | again => exact ih (Nat.le_add_right fuel more) s
    | leave => exact refl _
    | returned value => exact refl _

end Below

end Run

namespace Activation

open Run

variable {act act' : Activation}

/-- The activations differ only in that calls of the second have results where calls of
the first have not. -/
structure Below (act act' : Activation) : Prop where
  meaning : act'.meaning = act.meaning
  unit : act'.unit = act.unit
  settings : act'.settings = act.settings
  function : act'.function = act.function
  invoke : ∀ target args, Run.Below (act.invoke target args) (act'.invoke target args)

namespace Below

theorem call (h : Below act act') (target : SourceFunction) (values : List Value) :
    Run.Below (act.call target values) (act'.call target values) := by
  rw [Activation.call, Activation.call, h.meaning]
  exact .bind_same fun args => h.invoke target args

mutual

theorem evalExpr (h : Below act act') (store : Store) (e : Expr) :
    Run.Below (act.evalExpr store e) (act'.evalExpr store e) := by
  cases e with
  | literal lit => exact .refl _
  | var name =>
    rw [Activation.evalExpr, Activation.evalExpr, h.function]
    exact .refl _
  | constant name =>
    rw [Activation.evalExpr, Activation.evalExpr, h.unit]
    exact .refl _
  | binary op lhs rhs =>
    rw [Activation.evalExpr, Activation.evalExpr, h.meaning]
    exact (h.evalExpr store lhs).bind fun left => (h.evalExpr store rhs).bind_left _
  | cast e ty =>
    rw [Activation.evalExpr, Activation.evalExpr, h.meaning]
    exact (h.evalExpr store e).bind_left _
  | call callee args =>
    rw [Activation.evalExpr, Activation.evalExpr, h.unit, h.settings]
    exact .bind_same fun target => (h.evalArgs store args).bind fun values =>
      (h.call target values).bind_left _

theorem evalArgs (h : Below act act') (store : Store) (args : List Expr) :
    Run.Below (act.evalArgs store args) (act'.evalArgs store args) := by
  cases args with
  | nil => exact .refl _
  | cons e rest =>
    rw [Activation.evalArgs, Activation.evalArgs]
    exact (h.evalExpr store e).bind fun value => (h.evalArgs store rest).bind_left _

end

theorem dropExpr (h : Below act act') (store : Store) (e : Expr) :
    Run.Below (act.dropExpr store e) (act'.dropExpr store e) := by
  cases e with
  | call callee args =>
    rw [Activation.dropExpr, Activation.dropExpr, h.unit, h.settings]
    exact .bind_same fun target => (h.evalArgs store args).bind fun values =>
      (h.call target values).bind_left _
  | _ => exact (h.evalExpr store _).bind_left _

theorem print (h : Below act act') (store : Store) (what : Print) :
    Run.Below (act.print store what) (act'.print store what) := by
  cases what with
  | value e => exact (h.evalExpr store e).bind_left _
  | char e => exact (h.evalExpr store e).bind_left _
  | newline => exact .refl _
  | text s => exact .refl _

theorem assign (h : Below act act') (store : Store) (name : String) (ty : Scalar) (value : Value) :
    act'.assign store name ty value = act.assign store name ty value := by
  rw [Activation.assign, Activation.assign, h.meaning]

theorem execSimple (h : Below act act') (store : Store) (statement : Statement) :
    Run.Below (act.execSimple store statement) (act'.execSimple store statement) := by
  cases statement with
  | declare name ty init =>
    cases init with
    | none => exact .refl _
    | some e =>
      simp only [Activation.execSimple, h.assign]
      exact (h.evalExpr store e).bind_left _
  | assign name e =>
    simp only [Activation.execSimple, h.assign, h.function]
    exact .bind_same fun ty => (h.evalExpr store e).bind_left _
  | eval e => exact (h.dropExpr store e).bind_left _
  | print what => exact (h.print store what).bind_left _
  | _ => exact .refl _

theorem execReturn (h : Below act act') (store : Store) (value : Option Expr) :
    Run.Below (act.execReturn store value) (act'.execReturn store value) := by
  cases value with
  | none => exact .refl _
  | some e =>
    rw [Activation.execReturn, Activation.execReturn, h.function, h.meaning]
    exact (h.evalExpr store e).bind_left _

mutual

theorem execStatement (h : Below act act') {fuel fuel' : Nat} (hfuel : fuel ≤ fuel')
    (statement : Statement) (store : Store) :
    Run.Below (act.execStatement fuel statement store)
      (act'.execStatement fuel' statement store) := by
  cases statement with
  | ret value =>
    rw [Activation.execStatement, Activation.execStatement]
    exact (h.execReturn store value).bind_left _
  | branch condition thenBlock elseBlock =>
    rw [Activation.execStatement, Activation.execStatement]
    exact (h.evalExpr store condition).bind fun value =>
      .ite (h.execBlock hfuel thenBlock store) (h.execBlock hfuel elseBlock store)
  | loop condition body =>
    rw [Activation.execStatement, Activation.execStatement]
    refine .iterate (fun store => ?_) hfuel store
    exact (h.evalExpr store condition).bind fun value =>
      .ite ((h.execBlock hfuel body store).bind_left _) (.refl _)
  | _ =>
    simp only [Activation.execStatement]
    exact (h.execSimple store _).bind_left _

theorem execBlock (h : Below act act') {fuel fuel' : Nat} (hfuel : fuel ≤ fuel')
    (block : List Statement) (store : Store) :
    Run.Below (act.execBlock fuel block store) (act'.execBlock fuel' block store) := by
  cases block with
  | nil => exact .refl _
  | cons statement rest =>
    rw [Activation.execBlock, Activation.execBlock]
    exact (h.execStatement hfuel statement store).andThen (h.execBlock hfuel rest)

end

theorem run (h : Below act act') {fuel fuel' : Nat} (hfuel : fuel ≤ fuel') (args : List Int) :
    Run.Below (act.run fuel args) (act'.run fuel' args) := by
  rw [Activation.run, Activation.run, h.function]
  exact .bind_same fun bindings => (h.execBlock hfuel _ _).bind_left _

end Below

end Activation

namespace SourceUnit

variable (unit : SourceUnit) (settings : Settings) (m : Meaning)

/-- Calls may have more fuel. -/
theorem invoke_below {fuel fuel' : Nat} (hfuel : fuel ≤ fuel') (function : SourceFunction)
    (args : List Int) :
    Run.Below (unit.invoke settings m fuel function args)
      (unit.invoke settings m fuel' function args) := by
  induction fuel generalizing fuel' function args with
  | zero =>
    intro history result h
    cases h
  | succ fuel ih =>
    obtain ⟨more, rfl⟩ := Nat.exists_eq_add_of_lt hfuel
    have hle : fuel ≤ fuel + more := Nat.le_add_right fuel more
    refine .bind_same fun symbol => .bind_same fun _ => .ite (.refl _) ?_
    refine Activation.Below.run ?_ hle args
    exact ⟨rfl, rfl, rfl, rfl, ih hle⟩

theorem run_below {fuel fuel' : Nat} (hfuel : fuel ≤ fuel') (function : SourceFunction)
    (args : List Int) :
    Run.Below (unit.run settings m fuel function args)
      (unit.run settings m fuel' function args) := by
  refine Activation.Below.run ?_ hfuel args
  exact ⟨rfl, rfl, rfl, rfl, unit.invoke_below settings m hfuel⟩

variable {unit settings m}

/-- A function ends in at most one way. -/
theorem Terminates.unique {function : SourceFunction} {args : List Int}
    {result result' : Option Int} {events events' : History}
    (h : unit.Terminates settings m function args result events)
    (h' : unit.Terminates settings m function args result' events') :
    result = result' ∧ events = events' := by
  obtain ⟨fuel, hrun⟩ := h
  obtain ⟨fuel', hrun'⟩ := h'
  have hmost := unit.run_below settings m (Nat.le_max_left fuel fuel') function args [] _ hrun
  have hmost' := unit.run_below settings m (Nat.le_max_right fuel fuel') function args [] _ hrun'
  rw [hmost, Option.some.injEq, Prod.mk.injEq] at hmost'
  exact hmost'

end SourceUnit

end ScalarC
