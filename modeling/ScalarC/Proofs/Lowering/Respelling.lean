import ScalarC.Proofs.Lowering.Agreement

/-!
# Calls by identity and by symbol

A call names its target by the identity of a function or by a symbol. Where the function
belongs to the unit, its own symbol finds it again, in either spelling and without an alias.
So calls by identity can be written with symbols, at any places of a unit, and the lowered
unit stays the same.
-/

namespace ScalarC

namespace SourceUnit

/-- A call may keep its callee. A call by the identity of a function of the unit may have the
symbol of that function instead. -/
inductive Spells (unit : SourceUnit) (settings : Settings) : Callee → Callee → Prop where
  | same (callee : Callee) : Spells unit settings callee callee
  | symbol {f : SourceFunction} {symbol : Symbol} (declared : f ∈ unit.functions)
      (named : f.symbol? settings = some symbol) :
      Spells unit settings (.function f.id) (.symbol symbol)

/-- The same unit, except that some calls by identity are written with symbols. -/
structure Respells (settings : Settings) (unit unit' : SourceUnit) : Prop where
  name : unit'.name = unit.name
  constants : unit'.constants = unit.constants
  functions : List.Forall₂ (SourceFunction.Respells (unit.Spells settings)) unit.functions
    unit'.functions

end SourceUnit

section Unit

variable {swap : Callee → Callee → Prop}

/-- Functions are registered without a look at their bodies. -/
theorem Shared.registerAll_respelled {functions functions' : List SourceFunction}
    (h : List.Forall₂ (SourceFunction.Respells swap) functions functions') (shared : Shared) :
    shared.registerAll functions = shared.registerAll functions' := by
  induction h generalizing shared with
  | nil => rfl
  | @cons function function' rest rest' hfirst _ ih =>
    obtain ⟨body, rfl⟩ : ∃ body, function' = { function with body } := ⟨_, hfirst.same⟩
    simp only [registerAll, ih]
    rfl

/-- The entry point is looked up without a look at the bodies. -/
theorem Shared.entryPoint_respelled {unit unit' : SourceUnit}
    (h : List.Forall₂ (SourceFunction.Respells swap) unit.functions unit'.functions)
    (shared : Shared) : shared.entryPoint unit = shared.entryPoint unit' := by
  unfold entryPoint
  cases shared.settings.entry with
  | none => rfl
  | some name =>
    have hcandidates : List.Forall₂ (SourceFunction.Respells swap)
        ((unit.functionsNamed name).filter (!·.isExternal))
        ((unit'.functionsNamed name).filter (!·.isExternal)) := by
      refine List.rel_filter (fun f f' hf => ?_) (List.rel_filter (fun f f' hf => ?_) h)
      · rw [hf.same]
      · rw [hf.same]
    dsimp only
    generalize (unit.functionsNamed name).filter (!·.isExternal) = candidates at hcandidates ⊢
    generalize (unit'.functionsNamed name).filter (!·.isExternal) = candidates' at hcandidates ⊢
    cases hcandidates with
    | nil => rfl
    | @cons f f' rest rest' hf hrest =>
      obtain ⟨body, rfl⟩ : ∃ body, f' = { f with body } := ⟨_, hf.same⟩
      cases hrest with
      | nil => rfl
      | cons _ htail => simp [htail.length_eq]

end Unit

namespace Shared

variable {unit unit' : SourceUnit} {settings : Settings} {shared : Shared}

/-- The symbol of a function finds the function again, and is no alias. -/
theorem Describes.lowerCallee_symbol (hshared : shared.Describes unit settings)
    {f : SourceFunction} (hf : f ∈ unit.functions) {symbol : Symbol}
    (hsymbol : f.symbol? settings = some symbol) (function function' : SourceFunction) :
    Scope.lowerCallee { shared, function } (.function f.id)
      = Scope.lowerCallee { shared, function := function' } (.symbol symbol) := by
  have hnamed := (symbol?_eq_some hshared).1 hsymbol
  have hsignature : shared.signature? f.id = some ⟨symbol, f.paramTypes, f.returnType⟩ :=
    (hshared.registered.signature f.id _).2 ⟨f, hf, rfl, hnamed, rfl, rfl⟩
  have howner : shared.registry.owners.find? symbol = some f.id :=
    (hshared.registered.owner symbol f.id).2 ⟨f, hf, rfl, hnamed⟩
  have hresolve : shared.registry.resolveSymbol symbol = .ok ⟨symbol, f.id, false⟩ := by
    simp [Registry.resolveSymbol, howner]
  simp only [Scope.lowerCallee, hsignature, hresolve, Lower.lift, pure_bind, Bool.false_eq_true,
    if_false]

theorem Describes.agrees_spells (hshared : shared.Describes unit settings) :
    Agrees (unit.Spells settings) shared shared where
  overflow := rfl
  resolve _ := rfl
  constant? _ := rfl
  lowerCallee {target _} hspells function function' := by
    cases hspells with
    | same =>
      -- the look-up does not depend on the function in which the call stands
      cases target <;> exact fun _ _ _ => Iff.rfl
    | symbol declared named =>
      rw [hshared.lowerCallee_symbol declared named function function']
      exact fun _ _ _ => Iff.rfl

end Shared

namespace SourceUnit

variable {unit unit' : SourceUnit} {settings : Settings}

theorem Respells.ofUnit_eq (h : unit.Respells settings unit') :
    Shared.ofUnit unit settings = Shared.ofUnit unit' settings := by
  simp only [Shared.ofUnit, Shared.registerAll_respelled h.functions, h.constants]

theorem Respells.lowersUnit_iff (h : unit.Respells settings unit') {shared : Shared}
    (hshared : shared.Describes unit settings) {lowerings : List FunctionLowering}
    {lowered : LoweredUnit} :
    shared.LowersUnit unit lowerings lowered ↔ shared.LowersUnit unit' lowerings lowered := by
  have hlowers : List.Forall₂ shared.Lowers unit.functions lowerings ↔
      List.Forall₂ shared.Lowers unit'.functions lowerings :=
    hshared.agrees_spells.forall₂_lowers_iff h.functions
  constructor
  · intro hunit
    exact { hunit with
      name := hunit.name.trans h.name.symm
      lowers := hlowers.1 hunit.lowers
      entry := Shared.entryPoint_respelled h.functions shared ▸ hunit.entry }
  · intro hunit
    exact { hunit with
      name := hunit.name.trans h.name
      lowers := hlowers.2 hunit.lowers
      entry := Shared.entryPoint_respelled h.functions shared ▸ hunit.entry }

/-- Calls by identity and calls by symbol agree. If some calls by the identity of a function of
the unit are written with its symbol, the unit is accepted exactly if it was before, and the
lowered unit is the same. -/
theorem lower_respelled (h : unit.Respells settings unit') (lowered : LoweredUnit) :
    unit.lower settings = .ok lowered ↔ unit'.lower settings = .ok lowered := by
  simp only [lower_eq_ok, h.ofUnit_eq]
  constructor
  · rintro ⟨shared, lowerings, hshared, hlowers⟩
    have hdescribes := Shared.describes_ofUnit (h.ofUnit_eq ▸ hshared)
    exact ⟨shared, lowerings, hshared, (h.lowersUnit_iff hdescribes).1 hlowers⟩
  · rintro ⟨shared, lowerings, hshared, hlowers⟩
    have hdescribes := Shared.describes_ofUnit (h.ofUnit_eq ▸ hshared)
    exact ⟨shared, lowerings, hshared, (h.lowersUnit_iff hdescribes).2 hlowers⟩

end SourceUnit

namespace Sample

/-- Legacy spelling, with a delimiter that paths may contain. -/
def hyphenated : Settings := { Settings.legacy with delimiter := '-' }

def half : SourceFunction where
  path := "lib/math-ops"
  moduleName := "half"
  name := "of"
  params := [⟨"n", .u16⟩]
  returnType := some .u16
  isExternal := true

/-- A call in the argument of another one, and a call whose result is dropped. -/
def nestedCalls (outer inner dropped : Callee) : SourceUnit where
  name := "nested"
  functions :=
    [{ path := ""
       moduleName := "m"
       name := "run"
       params := [⟨"n", .u8⟩]
       body :=
        [.loop (.var "n")
          [.print (.value (.call outer [.call inner [.var "n"]])),
            .eval (.call dropped [.literal ⟨300, .u8⟩]),
            .assign "n" (.binary .sub (.var "n") (.literal ⟨1, .u8⟩))]] },
      half]

end Sample

/-- The outer call and the dropped one are written with the symbol, which contains the
delimiter twice, and the inner one stays as it is. -/
theorem SourceUnit.lower_respelled_nestedCalls :
    ∃ byIdentity bySymbol lowered,
      byIdentity = Callee.function Sample.half.id
      ∧ bySymbol = Callee.symbol "lib_math-ops_half_of-u16"
      ∧ (Sample.nestedCalls byIdentity byIdentity byIdentity).Respells Sample.hyphenated
        (Sample.nestedCalls bySymbol byIdentity bySymbol)
      ∧ (Sample.nestedCalls byIdentity byIdentity byIdentity).lower Sample.hyphenated = .ok lowered
      ∧ (Sample.nestedCalls bySymbol byIdentity bySymbol).lower Sample.hyphenated = .ok lowered := by
  let byIdentity := Callee.function Sample.half.id
  let bySymbol := Callee.symbol "lib_math-ops_half_of-u16"
  let unit := Sample.nestedCalls byIdentity byIdentity byIdentity
  have hnamed : Sample.half.symbol? Sample.hyphenated = some "lib_math-ops_half_of-u16" := by
    decide +kernel
  have hspells : unit.Spells Sample.hyphenated byIdentity bySymbol :=
    .symbol (List.mem_cons_of_mem _ List.mem_cons_self) hnamed
  have hsame : ∀ callee, unit.Spells Sample.hyphenated callee callee := .same
  have hprinted : Expr.Respells (unit.Spells Sample.hyphenated)
      (.call byIdentity [.call byIdentity [.var "n"]])
      (.call bySymbol [.call byIdentity [.var "n"]]) :=
    .call hspells (.cons (.refl hsame _) .nil)
  have hdropped : Expr.Respells (unit.Spells Sample.hyphenated)
      (.call byIdentity [.literal ⟨300, .u8⟩]) (.call bySymbol [.literal ⟨300, .u8⟩]) :=
    .call hspells (.refl hsame _)
  have hrespells : unit.Respells Sample.hyphenated
      (Sample.nestedCalls bySymbol byIdentity bySymbol) := by
    refine ⟨rfl, rfl, .cons ⟨rfl, .cons (.loop (.refl hsame _) ?_) .nil⟩ ?_⟩
    · exact .cons (.print (.value hprinted)) (.cons (.eval hdropped) (.refl hsame _))
    · exact .cons (.refl hsame _) .nil
  obtain ⟨lowered, hlowered⟩ := exists_ok_of_isOk (x := unit.lower Sample.hyphenated)
    (by decide +kernel)
  exact ⟨byIdentity, bySymbol, lowered, rfl, rfl, hrespells, hlowered,
    (lower_respelled hrespells lowered).1 hlowered⟩

end ScalarC
