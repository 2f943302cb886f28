import ScalarC.Proofs.Registration
import ScalarC.Proofs.Simulation.Function
import ScalarC.Source.Sample

/-!
# Lowering preserves meaning

The functions of a lowered unit run like the source functions of the same symbols.
Calls are made with less fuel than the calling function has, so the runs agree by
induction on fuel; and they agree for each amount of fuel, so one side ends exactly
if the other does.
-/

namespace ScalarC

variable {unit : SourceUnit} {settings : Settings} {lowered : LoweredUnit} {shared : Shared}

namespace Shared

/-- A function lowered on its own, or only declared. -/
def Lowers (shared : Shared) (function : SourceFunction) (lowering : FunctionLowering) : Prop :=
  (if function.isExternal then shared.lowerExternal function
    else shared.lowerFunction function) = .ok lowering

theorem lowerFunctions_ok {functions : List SourceFunction} {lowerings : List FunctionLowering}
    (h : shared.lowerFunctions functions = .ok lowerings) :
    List.Forall₂ shared.Lowers functions lowerings := by
  induction functions generalizing lowerings with
  | nil =>
    simp only [lowerFunctions, Except.ok.injEq] at h
    subst h
    exact .nil
  | cons function rest ih =>
    by_cases hexternal : function.isExternal = true
    all_goals
      simp only [lowerFunctions, hexternal, if_true, if_false, bind_eq_ok, pure_eq_ok,
        Bool.false_eq_true] at h
      obtain ⟨first, hfirst, others, hothers, rfl⟩ := h
      exact .cons (by simpa [Lowers, hexternal] using hfirst) (ih hothers)

/-- A function is only declared, or lowered with a derivation. -/
theorem Lowers.derives {function : SourceFunction} {lowering : FunctionLowering}
    (h : shared.Lowers function lowering) :
    (∃ symbol, shared.registry.resolve function.id = .ok symbol ∧ function.isExternal = true
      ∧ lowering =
        { function :=
            { name := function.name
              symbol
              params := function.params
              returnType := function.returnType
              isExternal := true }
          aliases := .empty
          diagnostics := [] })
      ∨ function.isExternal = false ∧ LowersFunction shared function lowering := by
  unfold Lowers at h
  split at h
  · rename_i hexternal
    unfold lowerExternal at h
    split at h
    · simp at h
    · rename_i symbol hsymbol
      simp only [Except.ok.injEq] at h
      exact .inl ⟨symbol, hsymbol, hexternal, h.symm⟩
  · rename_i hinternal
    exact .inr ⟨by simpa using hinternal, lowerFunction_derives h⟩

/-- A lowered function carries the symbol and the mark of the source. -/
theorem Lowers.symbol {function : SourceFunction} {lowering : FunctionLowering}
    (h : shared.Lowers function lowering) :
    shared.registry.resolve function.id = .ok lowering.function.symbol
      ∧ lowering.function.isExternal = function.isExternal := by
  rcases h.derives with ⟨symbol, hsymbol, hexternal, rfl⟩ | ⟨hinternal, h⟩
  · exact ⟨hsymbol, hexternal.symm⟩
  · cases h with
    | intro named params body returns => exact ⟨named, hinternal.symm⟩

theorem symbol?_eq_some (hshared : shared.Describes unit settings) {f : SourceFunction}
    {symbol : Symbol} :
    f.symbol? settings = some symbol ↔ shared.registry.symbolOf f.id = .ok symbol := by
  have hsame : shared.registry.symbolOf f.id = Registry.symbolOf
      { spelling := settings.spelling, delimiter := settings.delimiter } f.id :=
    Registry.symbolOf_congr hshared.spelling hshared.delimiter f.id
  rw [hsame, SourceFunction.symbol?]
  cases Registry.symbolOf _ f.id <;> simp [Except.toOption]

/-- The symbols of the functions differ. -/
theorem Describes.distinct_symbols (hshared : shared.Describes unit settings) :
    unit.functions.Pairwise fun f g => f.symbol? settings ≠ g.symbol? settings := by
  refine hshared.registered.distinct.imp_of_mem fun {f g} hf _ hne heq => hne ?_
  obtain ⟨symbol, hsymbol⟩ := hshared.registered.named f hf
  have hf' := (symbol?_eq_some hshared).2 hsymbol
  rw [hsymbol, (symbol?_eq_some hshared).1 (heq ▸ hf')]

/-- In canonical spelling a symbol at a call is one that is owned. -/
theorem Describes.resolveSymbol_ok (hshared : shared.Describes unit settings)
    (hcanonical : settings.spelling = .canonical) {spelling : String} {resolved : ResolvedCall}
    (h : shared.registry.resolveSymbol spelling = .ok resolved) :
    ∃ target, shared.registry.owners.find? spelling = some target
      ∧ resolved = ⟨spelling, target, false⟩ := by
  unfold Registry.resolveSymbol at h
  cases howner : shared.registry.owners.find? spelling with
  | some target =>
    simp only [howner, Except.ok.injEq] at h
    exact ⟨target, rfl, h.symm⟩
  | none =>
    simp only [howner, hshared.spelling, hcanonical] at h
    split at h <;> simp at h

/-- In canonical spelling a call names the function that owns the symbol it is lowered
to. -/
theorem Describes.callee (hshared : shared.Describes unit settings)
    (hcanonical : settings.spelling = .canonical) {function : SourceFunction} {callee : Callee}
    {s s' : Session} {symbol : Symbol} {signature : Signature}
    (h : Scope.lowerCallee { shared, function } callee s = .ok ((symbol, signature), s')) :
    ∃ f ∈ unit.functions, unit.callee? settings callee = some f
      ∧ f.symbol? settings = some symbol
      ∧ signature.params = f.paramTypes ∧ signature.returnType = f.returnType := by
  cases callee with
  | function id =>
    cases hsignature : shared.signature? id with
    | none => simp [Scope.lowerCallee, hsignature] at h
    | some found =>
      simp only [Scope.lowerCallee, hsignature, Lower.pure_ok, Prod.mk.injEq] at h
      obtain ⟨⟨rfl, rfl⟩, rfl⟩ := h
      obtain ⟨f, hf, rfl, hsymbol, hparams, hreturns⟩ :=
        (hshared.registered.signature id found).1 hsignature
      refine ⟨f, hf, ?_, (symbol?_eq_some hshared).2 hsymbol, hparams, hreturns⟩
      exact find?_of_pairwise hshared.registered.distinct_ids hf
  | symbol spelling =>
    simp only [Scope.lowerCallee, Lower.bind_ok, Lower.lift_ok] at h
    obtain ⟨resolved, _, ⟨hresolve, rfl⟩, h⟩ := h
    obtain ⟨target, howner, rfl⟩ := hshared.resolveSymbol_ok hcanonical hresolve
    obtain ⟨f, hf, rfl, hsymbol⟩ := (hshared.registered.owner spelling target).1 howner
    have hsignature := (hshared.registered.signature f.id
      ⟨spelling, f.paramTypes, f.returnType⟩).2 ⟨f, hf, rfl, hsymbol, rfl, rfl⟩
    simp only [hsignature, Bool.false_eq_true, if_false, Lower.pure_ok, Prod.mk.injEq] at h
    obtain ⟨⟨rfl, rfl⟩, rfl⟩ := h
    have hname := (symbol?_eq_some hshared).2 hsymbol
    refine ⟨f, hf, ?_, hname, rfl, rfl⟩
    rw [SourceUnit.callee?, ← hname]
    exact find?_of_pairwise hshared.distinct_symbols hf

theorem Describes.symbol_of_lowers (hshared : shared.Describes unit settings)
    {f : SourceFunction} {lowering : FunctionLowering} (h : shared.Lowers f lowering) :
    f.symbol? settings = some lowering.function.symbol :=
  (symbol?_eq_some hshared).2 (hshared.registered.symbolOf_of_resolve h.symbol.1)

/-- Looking a symbol up among lowered functions finds the function that owns it. -/
theorem Describes.find?_lowered (hshared : shared.Describes unit settings)
    {functions : List SourceFunction} {lowerings : List FunctionLowering}
    (hlower : List.Forall₂ shared.Lowers functions lowerings)
    (hdistinct : functions.Pairwise fun f g => f.symbol? settings ≠ g.symbol? settings)
    {f : SourceFunction} (hf : f ∈ functions) :
    ∃ lowering, shared.Lowers f lowering
      ∧ (lowerings.map (·.function)).find? (·.symbol == lowering.function.symbol)
        = some lowering.function := by
  induction hlower with
  | nil => simp at hf
  | @cons g first functions lowerings hfirst _ ih =>
    obtain ⟨hne, hrest⟩ := List.pairwise_cons.1 hdistinct
    rcases List.mem_cons.1 hf with rfl | hf
    · exact ⟨first, hfirst, by simp⟩
    · obtain ⟨lowering, hlowers, hfind⟩ := ih hrest hf
      have hother := hne f hf
      rw [hshared.symbol_of_lowers hfirst, hshared.symbol_of_lowers hlowers] at hother
      have hskip : (first.function.symbol == lowering.function.symbol) = false := by
        simpa using hother
      exact ⟨lowering, hlowers, by rw [List.map_cons, List.find?_cons, hskip, hfind]⟩

end Shared

/-- A lowered unit consists of its lowered functions. -/
theorem SourceUnit.lower_ok (h : unit.lower settings = .ok lowered) :
    ∃ (shared : Shared) (lowerings : List FunctionLowering), shared.Describes unit settings
      ∧ List.Forall₂ shared.Lowers unit.functions lowerings
      ∧ lowered.functions = lowerings.map (·.function) := by
  simp only [lower, bind_eq_ok, mapError_eq_ok, pure_eq_ok] at h
  obtain ⟨shared, hshared, lowerings, hlower, _, _, _, _, _, _, rfl⟩ := h
  exact ⟨shared, lowerings, Shared.describes_ofUnit hshared, Shared.lowerFunctions_ok hlower, rfl⟩

/-- A function and its code have the same run if calls of all functions have. -/
theorem Shared.Describes.run_eq (hshared : shared.Describes unit settings)
    (hcanonical : settings.spelling = .canonical) {m : Meaning} {fuel : Nat}
    (hcalls : ∀ g ∈ unit.functions, ∀ symbol, g.symbol? settings = some symbol →
      lowered.invoke m fuel symbol = unit.invoke settings m fuel g)
    {f : SourceFunction} {lowering : FunctionLowering} (hlowers : shared.Lowers f lowering)
    (hinternal : f.isExternal = false) (args : List Int) :
    lowered.run m fuel lowering.function args = unit.run settings m fuel f args := by
  have hlower : shared.lowerFunction f = .ok lowering := by simpa [Lowers, hinternal] using hlowers
  refine (lowerFunction_derives hlower).run_eq rfl rfl rfl hshared.constants ?_ fuel args
  intro callee s symbol signature s' htarget
  obtain ⟨g, hg, hcallee, hsymbol, hparams, hreturns⟩ := hshared.callee hcanonical htarget
  exact ⟨g, hcallee, hparams, hreturns, hcalls g hg symbol hsymbol⟩

/-- Calls of a function and of its code have the same run, whatever the fuel. -/
theorem Shared.Describes.invoke_eq (hshared : shared.Describes unit settings)
    (hcanonical : settings.spelling = .canonical) {lowerings : List FunctionLowering}
    (hlower : List.Forall₂ shared.Lowers unit.functions lowerings)
    (hfunctions : lowered.functions = lowerings.map (·.function)) (m : Meaning) (fuel : Nat) :
    ∀ f ∈ unit.functions, ∀ symbol, f.symbol? settings = some symbol →
      lowered.invoke m fuel symbol = unit.invoke settings m fuel f := by
  induction fuel with
  | zero => exact fun _ _ _ _ => rfl
  | succ fuel ih =>
    intro f hf symbol hsymbol
    funext args
    obtain ⟨lowering, hlowers, hfind⟩ := hshared.find?_lowered hlower hshared.distinct_symbols hf
    rw [hshared.symbol_of_lowers hlowers, Option.some.injEq] at hsymbol
    rw [hsymbol, ← hfunctions] at hfind
    simp only [LoweredUnit.invoke, SourceUnit.invoke, hfind, hshared.symbol_of_lowers hlowers,
      hsymbol, Run.ofOption_some, pure_bind, hlowers.symbol.2]
    cases hexternal : f.isExternal with
    | true => rfl
    | false =>
      refine congrArg (Run.emit (.call symbol args) >>= ·) (funext fun _ => ?_)
      exact hshared.run_eq hcanonical ih hlowers hexternal args

/-- Lowering preserves meaning. In canonical spelling every function that is not
external has its code under its symbol, and for any meaning of operators, conversions
and external functions, the source ends with a result and events exactly if the code
does. -/
theorem SourceUnit.terminates_lower_iff (h : unit.lower settings = .ok lowered)
    (hcanonical : settings.spelling = .canonical) {function : SourceFunction}
    (hmem : function ∈ unit.functions) (hinternal : function.isExternal = false) :
    ∃ code, function.symbol? settings = some code.symbol
      ∧ lowered.functions.find? (·.symbol == code.symbol) = some code
      ∧ ∀ m args result events, unit.Terminates settings m function args result events ↔
        lowered.Terminates m code args result events := by
  obtain ⟨shared, lowerings, hshared, hlower, hfunctions⟩ := lower_ok h
  obtain ⟨lowering, hlowers, hfind⟩ :=
    hshared.find?_lowered hlower hshared.distinct_symbols hmem
  refine ⟨lowering.function, hshared.symbol_of_lowers hlowers, hfunctions ▸ hfind, ?_⟩
  intro m args result events
  have hrun : ∀ fuel,
      lowered.run m fuel lowering.function args = unit.run settings m fuel function args :=
    fun fuel => hshared.run_eq hcanonical
      (hshared.invoke_eq hcanonical hlower hfunctions m fuel) hlowers hinternal args
  simp only [Terminates, LoweredUnit.Terminates, hrun]

/-- The sample that adds two locals by a call: its `main` ends with the sum, in source
and in code, under a meaning that reduces results to bytes. -/
theorem SourceUnit.terminates_lower_iff_sample :
    ∃ lowered code, (Sample.simpleAdd "/dev").lower {} = .ok lowered
      ∧ lowered.functions.find? (·.symbol == code.symbol) = some code
      ∧ lowered.Terminates
        { binary := fun _ a b => some (Scalar.wrap .u8 (a.raw + b.raw))
          convert := fun v ty => some (ty.wrap v.raw)
          returned := fun v ty => some (ty.wrap v.raw)
          external := fun _ _ _ => none }
        code [] (some 55) [.call "_dev_simple_add_add_numbers$u8$u8" [42, 13]] := by
  obtain ⟨lowered, h⟩ := exists_ok_of_isOk (x := (Sample.simpleAdd "/dev").lower {})
    (by decide +kernel)
  obtain ⟨code, _, hfind, hiff⟩ := terminates_lower_iff h rfl
    (List.mem_cons_of_mem _ List.mem_cons_self) rfl
  refine ⟨lowered, code, h, hfind, (hiff _ _ _ _).1 ⟨2, ?_⟩⟩
  decide +kernel

end ScalarC
