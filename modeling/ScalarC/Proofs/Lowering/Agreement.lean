import ScalarC.Proofs.Lowering.Correspondence
import ScalarC.Proofs.Simulation.Unit

/-!
# Lowerings that agree

Two lowerings agree if they accept the same functions with the same results. The errors of
the two may differ. Functions agree if what their units share answers the same questions in
the same way. This module also says what all the parts of a lowered unit come from.
-/

namespace ScalarC

/-! ## Steps and functions -/

/-- The steps succeed from the same sessions, with the same results. -/
def Lower.Agrees (α : Type) (x y : Lower α) : Prop :=
  ∀ s a s', x s = .ok (a, s') ↔ y s = .ok (a, s')

theorem Lower.agrees_correspondence : StepCorrespondence Lower.Agrees where
  quiet _ _ _ _ := Iff.rfl
  refuse _ _ _ _ _ := by simp
  bind first rest s b s' := by
    rw [bind_ok, bind_ok]
    constructor
    · rintro ⟨a, s₁, hfirst, hrest⟩
      exact ⟨a, s₁, (first s a s₁).1 hfirst, (rest a s₁ b s').1 hrest⟩
    · rintro ⟨a, s₁, hfirst, hrest⟩
      exact ⟨a, s₁, (first s a s₁).2 hfirst, (rest a s₁ b s').2 hrest⟩

/-- What the lowering of a function yields, from the session at its end. -/
def Session.lowering (s : Session) (function : SourceFunction) (symbol : Symbol)
    (ops : List Op) : FunctionLowering :=
  { function :=
      { name := function.name
        symbol
        params := function.params
        returnType := function.returnType
        isExternal := false
        registers := s.registers.rows
        locals := s.locals.slots
        strings := s.strings
        ops }
    aliases := s.aliases
    diagnostics := s.diagnostics }

namespace Shared

/-- A function is lowered if it has a symbol and its body is lowered. -/
theorem lowerFunction_eq {shared : Shared} {function : SourceFunction} {symbol : Symbol}
    (hsymbol : shared.registry.resolve function.id = .ok symbol) :
    shared.lowerFunction function =
      (Scope.lowerBody { shared, function } function.session).map
        fun outcome => outcome.2.lowering function symbol outcome.1 := by
  unfold lowerFunction
  rw [hsymbol]
  dsimp only
  cases Scope.lowerBody { shared, function } function.session with
  | error abort => rfl
  | ok outcome => rfl

theorem lowerFunction_eq_ok {shared : Shared} {function : SourceFunction}
    {lowering : FunctionLowering} :
    shared.lowerFunction function = .ok lowering ↔
      ∃ symbol ops s', shared.registry.resolve function.id = .ok symbol
        ∧ Scope.lowerBody { shared, function } function.session = .ok (ops, s')
        ∧ s'.lowering function symbol ops = lowering := by
  cases hsymbol : shared.registry.resolve function.id with
  | error cause => simp [lowerFunction, hsymbol]
  | ok symbol =>
    rw [lowerFunction_eq hsymbol]
    cases Scope.lowerBody { shared, function } function.session with
    | error abort => simp [Except.map]
    | ok outcome => simp [Except.map, Prod.ext_iff, and_assoc]

/-- What is shared gives the same answers, also about callees that `swap` relates. -/
structure Agrees (swap : Callee → Callee → Prop) (shared shared' : Shared) : Prop where
  overflow : shared'.settings.overflow = shared.settings.overflow
  resolve : ∀ id, shared'.registry.resolve id = shared.registry.resolve id
  constant? : ∀ name, shared'.constant? name = shared.constant? name
  lowerCallee : ∀ {callee callee'}, swap callee callee' → ∀ function function',
    Lower.Agrees _ (Scope.lowerCallee { shared, function } callee)
      (Scope.lowerCallee { shared := shared', function := function' } callee')

variable {swap : Callee → Callee → Prop} {shared shared' : Shared}
  {function function' : SourceFunction}

theorem Agrees.lowerBody (h : Agrees swap shared shared')
    (hfunction : function.Respells swap function') :
    Lower.Agrees _ (Scope.lowerBody { shared, function })
      (Scope.lowerBody { shared := shared', function := function' }) := by
  have hcorresponds : Scope.Corresponds Lower.Agrees swap { shared, function }
      { shared := shared', function := function' } := by
    refine ⟨?_, h.constant?, fun value ty => ?_, fun hcallee => h.lowerCallee hcallee _ _⟩
    · rw [hfunction.same]
    · rw [hfunction.same]
      simp only [Scope.literalValue, h.overflow]
      exact fun _ _ _ => Iff.rfl
  exact hcorresponds.lowerBody Lower.agrees_correspondence hfunction

/-- The same function has the same lowerings, whether it is external or not. -/
theorem Agrees.lowers_iff (h : Agrees swap shared shared')
    (hfunction : function.Respells swap function') {lowering : FunctionLowering} :
    shared.Lowers function lowering ↔ shared'.Lowers function' lowering := by
  have hbody := h.lowerBody hfunction function.session
  obtain ⟨body, rfl⟩ : ∃ body, function' = { function with body } := ⟨_, hfunction.same⟩
  have hid : ({ function with body } : SourceFunction).id = function.id := rfl
  unfold Lowers
  by_cases hexternal : function.isExternal = true
  · simp only [if_pos hexternal, lowerExternal, hid, h.resolve]
  · simp only [if_neg hexternal, lowerFunction_eq_ok, hid, h.resolve]
    constructor
    · rintro ⟨symbol, ops, s', hsymbol, hlower, rfl⟩
      exact ⟨symbol, ops, s', hsymbol, (hbody ops s').1 hlower, rfl⟩
    · rintro ⟨symbol, ops, s', hsymbol, hlower, rfl⟩
      exact ⟨symbol, ops, s', hsymbol, (hbody ops s').2 hlower, rfl⟩

end Shared

/-! ## Units -/

namespace Shared

/-- The functions are lowered one after the other. -/
theorem lowerFunctions_cons (shared : Shared) (function : SourceFunction)
    (rest : List SourceFunction) :
    shared.lowerFunctions (function :: rest) =
      ((if function.isExternal then shared.lowerExternal function
        else shared.lowerFunction function) >>= fun first =>
          (shared.lowerFunctions rest).map (first :: ·)) := by
  have hmap : ∀ first : FunctionLowering, (do return first :: (← shared.lowerFunctions rest)
      : Except Abort (List FunctionLowering)) = (shared.lowerFunctions rest).map (first :: ·) := by
    intro first
    cases shared.lowerFunctions rest <;> rfl
  simp only [lowerFunctions, hmap]
  split <;> rfl

theorem lowerFunctions_eq_ok {shared : Shared} {functions : List SourceFunction}
    {lowerings : List FunctionLowering} :
    shared.lowerFunctions functions = .ok lowerings ↔
      List.Forall₂ shared.Lowers functions lowerings := by
  refine ⟨lowerFunctions_ok, fun h => ?_⟩
  induction h with
  | nil => rfl
  | cons hfirst _ ih =>
    unfold Lowers at hfirst
    rw [lowerFunctions_cons, hfirst, ih]
    rfl

/-- Functions that agree one by one have the same lowerings. -/
theorem Agrees.forall₂_lowers_iff {swap : Callee → Callee → Prop} {shared shared' : Shared}
    (h : Agrees swap shared shared') {functions functions' : List SourceFunction}
    (hfunctions : List.Forall₂ (SourceFunction.Respells swap) functions functions')
    {lowerings : List FunctionLowering} :
    List.Forall₂ shared.Lowers functions lowerings ↔
      List.Forall₂ shared'.Lowers functions' lowerings := by
  induction hfunctions generalizing lowerings with
  | nil => simp
  | cons hfirst _ ih =>
    cases lowerings with
    | nil => simp
    | cons first rest => rw [List.forall₂_cons, List.forall₂_cons, h.lowers_iff hfirst, ih]

/-- Adding aliases asks for nothing but signatures. -/
theorem addAliases_congr {shared shared' : Shared}
    (h : ∀ id, shared'.signature? id = shared.signature? id) (entries : List (Symbol × FunctionId))
    (aliases : NameTable Signature) :
    shared'.addAliases entries aliases = shared.addAliases entries aliases := by
  induction entries generalizing aliases with
  | nil => rfl
  | cons entry rest ih => simp only [addAliases, h, ih]

/-- The parts of a lowered unit, from the lowerings of its functions. -/
structure LowersUnit (shared : Shared) (unit : SourceUnit) (lowerings : List FunctionLowering)
    (lowered : LoweredUnit) : Prop where
  name : lowered.name = unit.name
  lowers : List.Forall₂ shared.Lowers unit.functions lowerings
  functions : lowered.functions = lowerings.map (·.function)
  diagnostics : lowered.diagnostics = lowerings.flatMap (·.diagnostics)
  aliases : shared.addAliases (lowerings.flatMap (·.aliases.entries)) .empty = .ok lowered.aliases
  checked : LoweredFunction.checkNames (lowered.functions.map (·.symbol)) lowered.functions = .ok ()
  entry : shared.entryPoint unit = .ok lowered.entry

end Shared

theorem SourceUnit.lower_eq_ok {unit : SourceUnit} {settings : Settings}
    {lowered : LoweredUnit} :
    unit.lower settings = .ok lowered ↔ ∃ shared lowerings,
      Shared.ofUnit unit settings = .ok shared ∧ shared.LowersUnit unit lowerings lowered := by
  simp only [lower, bind_eq_ok, mapError_eq_ok, pure_eq_ok, Shared.lowerFunctions_eq_ok]
  constructor
  · rintro ⟨shared, hshared, lowerings, hlowers, aliases, haliases, _, hchecked, entry, hentry, rfl⟩
    exact ⟨shared, lowerings, hshared, rfl, hlowers, rfl, rfl, haliases, hchecked, hentry⟩
  · rintro ⟨shared, lowerings, hshared, hname, hlowers, hfunctions, hdiagnostics, haliases, hchecked,
      hentry⟩
    obtain ⟨name, functions, aliases, entry, diagnostics⟩ := lowered
    dsimp only at hname hfunctions hdiagnostics haliases hchecked hentry
    subst hname hfunctions hdiagnostics
    exact ⟨shared, hshared, lowerings, hlowers, aliases, haliases, (), hchecked, entry, hentry, rfl⟩

end ScalarC
