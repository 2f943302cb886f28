import ScalarC.Proofs.Name.Ambiguity

/-!
# Arguments of aliased calls

Symbols that agree up to hyphens, dots and underscores still end with the same groups: what
counts as an underscore is never the delimiter, and neither a name nor a type has anything
but letters, digits and underscores. So all functions that an alias may stand for take the
same types, and a call by alias checks and converts its arguments in the same way for each
of them.
-/

namespace ScalarC

namespace Registry

open Name

variable {registry : Registry} {first second : Symbol}

/-- Symbols with the same key have the same parameters. -/
theorem paramTypes_of_key (hdelimiter : isPart registry.delimiter = false) {a b : FunctionId}
    (ha : registry.symbolOf a = .ok first) (hb : registry.symbolOf b = .ok second)
    (hkey : legacyKey registry.delimiter first = legacyKey registry.delimiter second) :
    a.paramTypes = b.paramTypes := by
  have hchars := congrArg String.toList hkey
  rw [toList_legacyKey, toList_legacyKey, map_keyChar_symbolOf ha, map_keyChar_symbolOf hb]
    at hchars
  exact groups_inj hdelimiter (symbolOf_eq_ok.1 ha).2.1 (symbolOf_eq_ok.1 hb).2.1 hchars

end Registry

namespace Scope

variable {scope : Scope}

/-- The part of a call between its target and its result: the check of the arity, and the
arguments with their conversions to the types of the parameters. -/
def passArgs (scope : Scope) (callee : Callee) (params : List Scalar) (arity : Nat)
    (lowerArgs : Lower (List Register × List Op)) : Lower (List Register × List Op) :=
  if arity ≠ params.length then
    Lower.refuse (.arityMismatch scope.title callee.text params.length arity)
  else do
    let evaluated ← lowerArgs
    let bound ← bindArgs evaluated.1 params
    return (bound.1, evaluated.2 ++ bound.2)

/-- A call is its target, its arguments and its result. -/
theorem lowerCall_eq (scope : Scope) (callee : Callee) (arity : Nat)
    (lowerArgs : Lower (List Register × List Op)) (keep : Bool) :
    scope.lowerCall callee arity lowerArgs keep = (do
      let target ← scope.lowerCallee callee
      let passed ← scope.passArgs callee target.2.params arity lowerArgs
      let dest ← resultRegister target.2.returnType keep
      return (dest, passed.2 ++ [.call dest target.1 passed.1])) := by
  unfold lowerCall passArgs
  congr 1
  funext target
  by_cases harity : arity = target.2.params.length
  · simp [harity]
  · simp only [ne_eq, harity, not_false_eq_true, if_true]
    rfl

/-- The target of an aliased call is recorded under the spelling of the call. -/
theorem lowerCallee_alias {spelling : String} {target : FunctionId} {signature : Signature}
    (hresolve : scope.shared.registry.resolveSymbol spelling = .ok ⟨spelling, target, true⟩)
    (hsignature : scope.shared.signature? target = some signature) :
    scope.lowerCallee (.symbol spelling) = (do
      Lower.addAlias spelling target
      return (spelling, signature)) := by
  simp only [lowerCallee, hresolve, Lower.lift, pure_bind, hsignature, if_true]

end Scope

namespace Shared

variable {shared : Shared} {unit : SourceUnit} {settings : Settings}

theorem check_ofUnit (h : ofUnit unit settings = .ok shared) : settings.check = .ok () := by
  simp only [ofUnit, bind_eq_ok] at h
  obtain ⟨_, hstart, _⟩ := h
  exact (Registry.ofSettings_ok hstart).1

/-- A registered function has a signature with the types of its identity. -/
theorem Describes.exists_signature (h : shared.Describes unit settings) {id : FunctionId}
    {symbol : Symbol} (hsymbol : shared.registry.symbol? id = some symbol) :
    ∃ signature, shared.signature? id = some signature ∧ signature.params = id.paramTypes := by
  have howner := (h.registered.consistent.inverse symbol id).2 hsymbol
  obtain ⟨f, hf, rfl, hnamed⟩ := (h.registered.owner symbol id).1 howner
  exact ⟨⟨symbol, f.paramTypes, f.returnType⟩,
    (h.registered.signature f.id _).2 ⟨f, hf, rfl, hnamed, rfl, rfl⟩, rfl⟩

/-- The functions that an alias may stand for take the types of its target. -/
theorem paramTypes_of_matches (h : ofUnit unit settings = .ok shared) {spelling : String}
    {target id : FunctionId} {symbol : Symbol}
    (hresolve : shared.registry.resolveSymbol spelling = .ok ⟨spelling, target, true⟩)
    (hmatch : shared.registry.Matches spelling id symbol) : target.paramTypes = id.paramTypes := by
  have hdescribes := describes_ofUnit h
  have hconsistent := hdescribes.registered.consistent
  have hdelimiter : Name.isPart shared.registry.delimiter = false :=
    hdescribes.delimiter ▸ Settings.isPart_delimiter (check_ofUnit h)
  obtain ⟨owned, howner, hkey⟩ := Registry.exists_owner_of_alias hresolve
  exact Registry.paramTypes_of_key hdelimiter (hconsistent.named owned target howner)
    (hconsistent.symbolOf_of_symbol? hmatch.1) (hkey.trans (Name.agree_iff.1 hmatch.2).symm)

/-- An alias never changes the types of arguments. After any series of registrations, with any
valid delimiter, functions whose symbols have the same key take the same types. So, in a unit,
a call by alias checks its arity and converts its arguments by the signature of any function
that the alias may stand for; only the result depends on which of them it reaches. -/
theorem alias_arguments_fixed {start : Registry} (hstart : Registry.ofSettings settings = .ok start)
    (ids : List FunctionId) :
    (∀ a b first second, (start.recordAll ids).symbol? a = some first →
      (start.recordAll ids).symbol? b = some second →
      Name.legacyKey settings.delimiter first = Name.legacyKey settings.delimiter second →
      a.paramTypes = b.paramTypes)
    ∧ ∀ unit shared, ofUnit unit settings = .ok shared → ∀ spelling target,
      shared.registry.resolveSymbol spelling = .ok ⟨spelling, target, true⟩ →
      ∃ reached, shared.signature? target = some reached
        ∧ ∀ id symbol, shared.registry.Matches spelling id symbol →
          ∃ signature, shared.signature? id = some signature
            ∧ ∀ function arity lowerArgs keep,
              Scope.lowerCall ⟨shared, function⟩ (.symbol spelling) arity lowerArgs keep = (do
                Lower.addAlias spelling target
                let passed ← Scope.passArgs ⟨shared, function⟩ (.symbol spelling) signature.params
                  arity lowerArgs
                let dest ← Scope.resultRegister reached.returnType keep
                return (dest, passed.2 ++ [.call dest spelling passed.1])) := by
  constructor
  · intro a b first second ha hb hkey
    have hconsistent := (Registry.consistent_ofSettings hstart).recordAll ids
    have hdelimiter := (Registry.recordAll_ofSettings hstart ids).2
    have hpart := Settings.isPart_delimiter (Registry.ofSettings_ok hstart).1
    rw [← hdelimiter] at hkey hpart
    exact Registry.paramTypes_of_key hpart (hconsistent.symbolOf_of_symbol? ha)
      (hconsistent.symbolOf_of_symbol? hb) hkey
  · intro unit shared hshared spelling target hresolve
    have hdescribes := describes_ofUnit hshared
    obtain ⟨owned, howner, _⟩ := Registry.exists_owner_of_alias hresolve
    obtain ⟨reached, hreached, hparams⟩ := hdescribes.exists_signature
      ((hdescribes.registered.consistent.inverse owned target).1 howner)
    refine ⟨reached, hreached, fun id symbol hmatch => ?_⟩
    obtain ⟨signature, hsignature, hparams'⟩ := hdescribes.exists_signature hmatch.1
    refine ⟨signature, hsignature, fun function arity lowerArgs keep => ?_⟩
    have hsame : reached.params = signature.params := by
      rw [hparams, hparams', paramTypes_of_matches hshared hresolve hmatch]
    rw [Scope.lowerCall_eq, Scope.lowerCallee_alias hresolve hreached]
    simp only [bind_assoc, pure_bind, hsame]

end Shared

/-- Two functions whose symbols agree, with results of different types, and a call by another
spelling of both. -/
def Sample.variants : SourceUnit where
  name := "variants"
  functions :=
    [{ path := ""
       moduleName := "a.b"
       name := "f"
       params := [⟨"x", .u8⟩, ⟨"y", .f8_8⟩]
       returnType := some .u8
       isExternal := true },
      { path := ""
        moduleName := "a_b"
        name := "f"
        params := [⟨"x", .u8⟩, ⟨"y", .f8_8⟩]
        returnType := some .u16
        isExternal := true },
      { path := ""
        moduleName := "m"
        name := "g"
        body := [.eval (.call (.symbol "a.b.f-u8-f8_8") [.literal ⟨1, .u8⟩, .literal ⟨2, .i16⟩])] }]

/-- With the hyphen as delimiter, the call of the sample reaches the first function, and passes
its arguments by the signature of the second. -/
theorem Shared.alias_arguments_fixed_variants :
    ∃ start shared target other reached signature,
      Registry.ofSettings { Settings.legacy with delimiter := '-' } = .ok start
      ∧ Shared.ofUnit Sample.variants { Settings.legacy with delimiter := '-' } = .ok shared
      ∧ (start.recordAll [target, other]).symbol? target = some "a.b_f-u8-f8_8"
      ∧ (start.recordAll [target, other]).symbol? other = some "a_b_f-u8-f8_8"
      ∧ target.paramTypes = other.paramTypes
      ∧ shared.registry.resolveSymbol "a.b.f-u8-f8_8" = .ok ⟨"a.b.f-u8-f8_8", target, true⟩
      ∧ shared.registry.Matches "a.b.f-u8-f8_8" other "a_b_f-u8-f8_8"
      ∧ shared.signature? target = some reached ∧ shared.signature? other = some signature
      ∧ signature = ⟨"a_b_f-u8-f8_8", [.u8, .f8_8], some .u16⟩
      ∧ ∀ function arity lowerArgs keep,
        Scope.lowerCall ⟨shared, function⟩ (.symbol "a.b.f-u8-f8_8") arity lowerArgs keep = (do
          Lower.addAlias "a.b.f-u8-f8_8" target
          let passed ← Scope.passArgs ⟨shared, function⟩ (.symbol "a.b.f-u8-f8_8")
            signature.params arity lowerArgs
          let dest ← Scope.resultRegister reached.returnType keep
          return (dest, passed.2 ++ [.call dest "a.b.f-u8-f8_8" passed.1])) := by
  let settings : Settings := { Settings.legacy with delimiter := '-' }
  let target : FunctionId := ⟨"", "a.b", "f", [.u8, .f8_8]⟩
  let other : FunctionId := ⟨"", "a_b", "f", [.u8, .f8_8]⟩
  have hstart : Registry.ofSettings settings = .ok { spelling := .legacy, delimiter := '-' } := rfl
  have hsymbols : (Registry.recordAll { spelling := .legacy, delimiter := '-' }
      [target, other]).symbols = [(other, "a_b_f-u8-f8_8"), (target, "a.b_f-u8-f8_8")] := by
    decide +kernel
  have hunit : (ofUnit Sample.variants settings).toOption.map (fun shared =>
      (shared.registry.resolveSymbol "a.b.f-u8-f8_8", shared.registry.symbol? other,
        shared.registry.delimiter, shared.signature? other))
      = some (.ok ⟨"a.b.f-u8-f8_8", target, true⟩, some "a_b_f-u8-f8_8", '-',
        some ⟨"a_b_f-u8-f8_8", [.u8, .f8_8], some .u16⟩) := by
    decide +kernel
  cases h : ofUnit Sample.variants settings with
  | error cause => simp [h, Except.toOption] at hunit
  | ok shared =>
    simp only [h, Except.toOption, Option.map_some, Option.some.injEq, Prod.mk.injEq] at hunit
    obtain ⟨hresolve, hsymbol, hdelimiter, hsignature⟩ := hunit
    have hmatch : shared.registry.Matches "a.b.f-u8-f8_8" other "a_b_f-u8-f8_8" :=
      ⟨hsymbol, Name.agree_iff.2 (by rw [hdelimiter]; decide +kernel)⟩
    have htarget : (Registry.recordAll { spelling := .legacy, delimiter := '-' }
        [target, other]).symbol? target = some "a.b_f-u8-f8_8" := by
      simp [Registry.symbol?, hsymbols, target, other]
    have hother : (Registry.recordAll { spelling := .legacy, delimiter := '-' }
        [target, other]).symbol? other = some "a_b_f-u8-f8_8" := by
      simp [Registry.symbol?, hsymbols, target, other]
    obtain ⟨htypes, hcalls⟩ := alias_arguments_fixed hstart [target, other]
    obtain ⟨reached, hreached, hall⟩ := hcalls _ shared h _ target hresolve
    obtain ⟨signature, hfound, hcall⟩ := hall other _ hmatch
    refine ⟨_, shared, target, other, reached, signature, hstart, rfl, htarget, hother,
      htypes _ _ _ _ htarget hother (by decide +kernel), hresolve, hmatch, hreached, hfound, ?_, hcall⟩
    rw [hsignature, Option.some.injEq] at hfound
    exact hfound.symm

end ScalarC
