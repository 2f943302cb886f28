import ScalarC.Proofs.Lowering.Agreement

/-!
# The overflow policies

A literal outside the range of its type is refused, or wrapped with a warning. Up to the first
such literal the two policies take the same steps; there, one stops with the error whose
message the other reports. So a unit is accepted by the strict policy exactly if the other one
accepts it without a warning, with the same result.
-/

namespace ScalarC

/-- How a strict run ends where the lenient one yields `result` and the warnings `reported`:
with the same result, or with the overflow that is reported first. -/
def EndsAtFirst {β : Type} (reported : List Diagnostic) (strict : Except Abort β) (result : β) :
    Prop :=
  match reported with
  | [] => strict = .ok result
  | first :: _ => ∃ function value ty,
    strict = .error (.refused (.outOfRange function value ty))
      ∧ (CompileError.outOfRange function value ty).message = first.message

/-- All diagnostics are warnings. -/
def OnlyWarnings (reported : List Diagnostic) : Prop :=
  ∀ diagnostic ∈ reported, diagnostic.severity = .warning

theorem OnlyWarnings.append {reported later : List Diagnostic} (h : OnlyWarnings reported)
    (h' : OnlyWarnings later) : OnlyWarnings (reported ++ later) := by
  intro diagnostic hmem
  rcases List.mem_append.1 hmem with hmem | hmem
  · exact h diagnostic hmem
  · exact h' diagnostic hmem

namespace EndsAtFirst

variable {β γ : Type} {reported later : List Diagnostic} {strict : Except Abort β} {b : β}

theorem eq_nil (h : EndsAtFirst reported strict b) {c : β} (hok : strict = .ok c) :
    reported = [] := by
  cases reported with
  | nil => rfl
  | cons first rest =>
    obtain ⟨_, _, _, herror, _⟩ := h
    rw [hok] at herror
    cases herror

/-- What comes behind counts only if nothing is reported before it. -/
theorem bind (h : EndsAtFirst reported strict b) {next : β → Except Abort γ} {c : γ}
    (hnext : EndsAtFirst later (next b) c) :
    EndsAtFirst (reported ++ later) (strict >>= next) c := by
  cases reported with
  | nil =>
    rw [show strict = .ok b from h]
    exact hnext
  | cons first rest =>
    obtain ⟨function, value, ty, herror, hmessage⟩ := h
    rw [herror]
    exact ⟨function, value, ty, rfl, hmessage⟩

theorem map (h : EndsAtFirst reported strict b) (f : β → γ) :
    EndsAtFirst reported (strict.map f) (f b) := by
  cases reported with
  | nil =>
    rw [show strict = .ok b from h]
    rfl
  | cons first rest =>
    obtain ⟨function, value, ty, herror, hmessage⟩ := h
    rw [herror]
    exact ⟨function, value, ty, rfl, hmessage⟩

end EndsAtFirst

/-! ## Steps -/

/-- The first step does what the second does, but stops at the first report. -/
structure Lower.Tightens (α : Type) (strict lenient : Lower α) : Prop where
  accepts : ∀ s a s', strict s = .ok (a, s') → lenient s = .ok (a, s')
  reports : ∀ s a s', lenient s = .ok (a, s') → ∃ reported,
    s'.diagnostics = s.diagnostics ++ reported ∧ OnlyWarnings reported
      ∧ EndsAtFirst reported (strict s) (a, s')

theorem Lower.tightens_correspondence : StepCorrespondence Lower.Tightens where
  quiet hquiet :=
    { accepts := fun _ _ _ h => h
      reports := fun s a s' h =>
        ⟨[], by simp [hquiet s a s' h], by simp [OnlyWarnings], h⟩ }
  refuse cause cause' :=
    { accepts := by simp
      reports := by simp }
  bind first rest :=
    { accepts := by
        intro s b s' h
        obtain ⟨a, s₁, hfirst, hrest⟩ := bind_ok.1 h
        exact bind_ok.2 ⟨a, s₁, first.accepts s a s₁ hfirst, (rest a).accepts s₁ b s' hrest⟩
      reports := by
        intro s b s' h
        obtain ⟨a, s₁, hfirst, hrest⟩ := bind_ok.1 h
        obtain ⟨reported, hreported, hwarnings, hends⟩ := first.reports s a s₁ hfirst
        obtain ⟨later, hlater, hwarnings', hends'⟩ := (rest a).reports s₁ b s' hrest
        refine ⟨reported ++ later, ?_, hwarnings.append hwarnings', hends.bind hends'⟩
        rw [hlater, hreported, List.append_assoc] }

/-- The same, with other settings. -/
def Shared.under (shared : Shared) (settings : Settings) : Shared :=
  { shared with settings }

namespace Scope

open Lower

theorem quiet_lowerCallee (scope : Scope) (callee : Callee) : (scope.lowerCallee callee).Quiet := by
  intro s a s' h
  obtain ⟨_, _, ⟨_, rfl⟩ | ⟨_, rfl⟩⟩ := lowerCallee_ok h
  · rfl
  · rfl

/-- The warning about a literal has the text of the error. -/
theorem message_wrapWarning (scope : Scope) (value wrapped : Int) (ty : Scalar) :
    (scope.wrapWarning value wrapped ty).message
      = (CompileError.outOfRange scope.title value ty).message := rfl

/-- A literal that fits is the same under both policies. One that does not is refused with
the message of the warning. -/
theorem tightens_literalValue {strict lenient : Scope}
    (hreject : strict.shared.settings.overflow = .reject)
    (hwarn : lenient.shared.settings.overflow = .warn) (htitle : strict.title = lenient.title)
    (value : Int) (ty : Scalar) :
    Tightens Int (strict.literalValue value ty) (lenient.literalValue value ty) := by
  unfold literalValue
  split
  · exact tightens_correspondence.quiet (quiet_pure _)
  · rw [hreject, hwarn]
    constructor
    · simp
    · intro s a s' h
      simp only [Lower.bind_ok, Lower.warn, Lower.modify_ok, Lower.pure_ok] at h
      obtain ⟨_, _, rfl, rfl, rfl⟩ := h
      refine ⟨_, rfl, by simp [OnlyWarnings, wrapWarning], strict.title, value, ty, rfl, ?_⟩
      rw [htitle, message_wrapWarning]

theorem tightens_lowerBody {shared : Shared} {strict lenient : Settings}
    (hreject : strict.overflow = .reject) (hwarn : lenient.overflow = .warn)
    (function : SourceFunction) :
    Tightens _ (lowerBody { shared := shared.under strict, function })
      (lowerBody { shared := shared.under lenient, function }) := by
  have hcorresponds : Corresponds Tightens Eq { shared := shared.under strict, function }
      { shared := shared.under lenient, function } := by
    refine ⟨rfl, fun _ => rfl, tightens_literalValue hreject hwarn rfl, ?_⟩
    rintro callee _ rfl
    have hquiet := tightens_correspondence.quiet
      (quiet_lowerCallee { shared := shared.under strict, function } callee)
    -- the settings play no part in the look-up
    cases callee <;> exact hquiet
  exact hcorresponds.lowerBody tightens_correspondence (.refl (fun _ => rfl) function)

end Scope

/-! ## Functions and units -/

namespace Shared

variable {shared : Shared} {strict lenient : Settings}

theorem lowers_of_strict (hreject : strict.overflow = .reject) (hwarn : lenient.overflow = .warn)
    {function : SourceFunction} {lowering : FunctionLowering}
    (h : (shared.under strict).Lowers function lowering) :
    (shared.under lenient).Lowers function lowering := by
  unfold Lowers at h ⊢
  split at h
  · rename_i hexternal
    rw [if_pos hexternal]
    exact h
  · rename_i hinternal
    obtain ⟨symbol, ops, s', hsymbol, hbody, rfl⟩ := lowerFunction_eq_ok.1 h
    rw [if_neg hinternal]
    refine lowerFunction_eq_ok.2 ⟨symbol, ops, s', hsymbol, ?_, rfl⟩
    exact (Scope.tightens_lowerBody hreject hwarn function).accepts _ _ _ hbody

theorem lowers_reports (hreject : strict.overflow = .reject) (hwarn : lenient.overflow = .warn)
    {function : SourceFunction} {lowering : FunctionLowering}
    (h : (shared.under lenient).Lowers function lowering) :
    OnlyWarnings lowering.diagnostics ∧ EndsAtFirst lowering.diagnostics
      (if function.isExternal then (shared.under strict).lowerExternal function
        else (shared.under strict).lowerFunction function) lowering := by
  unfold Lowers at h
  split at h
  · rename_i hexternal
    rw [if_pos hexternal]
    have hnone : lowering.diagnostics = [] := by
      unfold lowerExternal at h
      split at h
      · simp at h
      · cases h
        rfl
    rw [hnone]
    exact ⟨by simp [OnlyWarnings], h⟩
  · rename_i hinternal
    obtain ⟨symbol, ops, s', hsymbol, hbody, rfl⟩ := lowerFunction_eq_ok.1 h
    obtain ⟨reported, hreported, hwarnings, hends⟩ :=
      (Scope.tightens_lowerBody hreject hwarn function).reports _ _ _ hbody
    have hall : (s'.lowering function symbol ops).diagnostics = reported := hreported
    have hstrict : (shared.under strict).registry.resolve function.id = .ok symbol := hsymbol
    rw [if_neg hinternal, hall, lowerFunction_eq hstrict]
    exact ⟨hwarnings, hends.map fun outcome => outcome.2.lowering function symbol outcome.1⟩

/-- The functions of a unit are lowered up to the first report. -/
theorem lowerFunctions_reports (strict : Settings) (hreject : strict.overflow = .reject)
    (hwarn : lenient.overflow = .warn) {functions : List SourceFunction}
    {lowerings : List FunctionLowering}
    (h : List.Forall₂ (shared.under lenient).Lowers functions lowerings) :
    OnlyWarnings (lowerings.flatMap (·.diagnostics))
      ∧ EndsAtFirst (lowerings.flatMap (·.diagnostics))
        ((shared.under strict).lowerFunctions functions) lowerings := by
  induction h with
  | nil => exact ⟨by simp [OnlyWarnings], rfl⟩
  | @cons function lowering functions lowerings hfirst _ ih =>
    obtain ⟨hwarnings, hends⟩ := lowers_reports hreject hwarn hfirst
    obtain ⟨hwarnings', hends'⟩ := ih
    rw [List.flatMap_cons, lowerFunctions_cons]
    exact ⟨hwarnings.append hwarnings', hends.bind (hends'.map (lowering :: ·))⟩

/-! What is shared does not depend on the policy, apart from the settings themselves. -/

theorem registerAll_under (shared : Shared) (settings : Settings)
    (functions : List SourceFunction) :
    (shared.under settings).registerAll functions
      = (shared.registerAll functions).map (·.under settings) := by
  induction functions generalizing shared with
  | nil => rfl
  | cons function rest ih =>
    simp only [registerAll]
    cases function.params.find? fun p => !Name.isIdentifier p.name with
    | some param => rfl
    | none =>
      have hregistry : (shared.under settings).registry = shared.registry := rfl
      rw [hregistry]
      cases shared.registry.register function.id with
      | error cause => rfl
      | ok entered =>
        obtain ⟨symbol, registry⟩ := entered
        exact ih { shared with
          registry
          signatures := (function.id, ⟨symbol, function.paramTypes, function.returnType⟩)
            :: shared.signatures }

theorem addConstants_under (shared : Shared) (settings : Settings) (constants : List Constant) :
    (shared.under settings).addConstants constants
      = (shared.addConstants constants).map (·.under settings) := by
  induction constants generalizing shared with
  | nil => rfl
  | cons constant rest ih =>
    have hconstant : (shared.under settings).constant? constant.name
      = shared.constant? constant.name := rfl
    simp only [addConstants, hconstant]
    split
    · rfl
    · exact ih { shared with constants := constant :: shared.constants }

theorem ofUnit_overflow (unit : SourceUnit) (settings : Settings) (policy : OverflowPolicy) :
    ofUnit unit { settings with overflow := policy }
      = (ofUnit unit settings).map (·.under { settings with overflow := policy }) := by
  have hstart : Registry.ofSettings { settings with overflow := policy }
    = Registry.ofSettings settings := rfl
  unfold ofUnit
  rw [hstart]
  cases Registry.ofSettings settings with
  | error cause => rfl
  | ok registry =>
    let start : Shared := { settings, registry, signatures := [], constants := [] }
    change ((start.under _).registerAll unit.functions >>= (·.addConstants unit.constants))
      = (start.registerAll unit.functions >>= (·.addConstants unit.constants)).map _
    rw [registerAll_under]
    cases start.registerAll unit.functions with
    | error cause => rfl
    | ok shared => exact addConstants_under shared _ _

/-- The policy plays a part only in the lowering of the functions. -/
theorem LowersUnit.of_overflow {unit : SourceUnit} {settings : Settings}
    {policy policy' : OverflowPolicy} {lowerings : List FunctionLowering} {lowered : LoweredUnit}
    (h : (shared.under { settings with overflow := policy }).LowersUnit unit lowerings lowered)
    (hlowers : List.Forall₂ (shared.under { settings with overflow := policy' }).Lowers
      unit.functions lowerings) :
    (shared.under { settings with overflow := policy' }).LowersUnit unit lowerings lowered where
  name := h.name
  lowers := hlowers
  functions := h.functions
  diagnostics := h.diagnostics
  aliases := by
    rw [← h.aliases]
    refine addAliases_congr (fun id => ?_) _ _
    rfl
  checked := h.checked
  entry := h.entry

end Shared

namespace SourceUnit

variable {unit : SourceUnit} {settings : Settings} {lowered : LoweredUnit}

/-- An error in a function ends the lowering of its unit. -/
theorem lower_eq_error {shared : Shared} (hshared : Shared.ofUnit unit settings = .ok shared)
    {abort : Abort} (herror : shared.lowerFunctions unit.functions = .error abort) :
    unit.lower settings = .error abort := by
  unfold lower
  rw [hshared]
  change (shared.lowerFunctions unit.functions >>= _) = _
  rw [herror]
  rfl

theorem lower_overflow_eq_ok {policy : OverflowPolicy} :
    unit.lower { settings with overflow := policy } = .ok lowered ↔ ∃ shared lowerings,
      Shared.ofUnit unit settings = .ok shared
        ∧ (shared.under { settings with overflow := policy }).LowersUnit unit lowerings lowered := by
  rw [lower_eq_ok, Shared.ofUnit_overflow]
  cases Shared.ofUnit unit settings with
  | error cause => simp [Except.map]
  | ok shared => simp [Except.map]

theorem lower_warn_of_reject
    (h : unit.lower { settings with overflow := .reject } = .ok lowered) :
    unit.lower { settings with overflow := .warn } = .ok lowered := by
  obtain ⟨shared, lowerings, hshared, hunit⟩ := lower_overflow_eq_ok.1 h
  have hlowers : List.Forall₂ (shared.under { settings with overflow := .warn }).Lowers
      unit.functions lowerings :=
    hunit.lowers.imp fun _ _ => Shared.lowers_of_strict rfl rfl
  exact lower_overflow_eq_ok.2 ⟨shared, lowerings, hshared, hunit.of_overflow hlowers⟩

theorem lower_reports (h : unit.lower { settings with overflow := .warn } = .ok lowered) :
    OnlyWarnings lowered.diagnostics ∧ EndsAtFirst lowered.diagnostics
      (unit.lower { settings with overflow := .reject }) lowered := by
  obtain ⟨shared, lowerings, hshared, hunit⟩ := lower_overflow_eq_ok.1 h
  obtain ⟨hwarnings, hends⟩ := Shared.lowerFunctions_reports { settings with overflow := .reject }
    rfl rfl hunit.lowers
  rw [hunit.diagnostics]
  refine ⟨hwarnings, ?_⟩
  cases hreported : lowerings.flatMap (·.diagnostics) with
  | nil =>
    rw [hreported] at hends
    have hlowers := Shared.lowerFunctions_eq_ok.1 hends
    exact lower_overflow_eq_ok.2 ⟨shared, lowerings, hshared, hunit.of_overflow hlowers⟩
  | cons first rest =>
    rw [hreported] at hends
    obtain ⟨function, value, ty, herror, hmessage⟩ := hends
    refine ⟨function, value, ty, lower_eq_error ?_ herror, hmessage⟩
    rw [Shared.ofUnit_overflow, hshared]
    rfl

/-- The two overflow policies agree. Refusing literals out of range accepts a unit exactly if
warning about them accepts it without a diagnostic, with the same lowered unit. If there are
diagnostics, all are warnings, and the unit is refused for a literal out of range, with the
message of the first of them. -/
theorem lower_overflow_policies (unit : SourceUnit) (settings : Settings) :
    (∀ lowered, unit.lower { settings with overflow := .reject } = .ok lowered ↔
      unit.lower { settings with overflow := .warn } = .ok lowered ∧ lowered.diagnostics = [])
    ∧ ∀ lowered first rest, unit.lower { settings with overflow := .warn } = .ok lowered →
      lowered.diagnostics = first :: rest →
        (∀ diagnostic ∈ lowered.diagnostics, diagnostic.severity = .warning)
        ∧ ∃ function value ty, unit.lower { settings with overflow := .reject }
            = .error (.refused (.outOfRange function value ty))
          ∧ (CompileError.outOfRange function value ty).message = first.message := by
  refine ⟨fun lowered => ⟨fun h => ?_, fun ⟨h, hnone⟩ => ?_⟩, fun lowered first rest h hfirst => ?_⟩
  · have hwarn := lower_warn_of_reject h
    exact ⟨hwarn, (lower_reports hwarn).2.eq_nil h⟩
  · have hends := (lower_reports h).2
    rwa [hnone] at hends
  · obtain ⟨hwarnings, hends⟩ := lower_reports h
    rw [hfirst] at hends
    exact ⟨hwarnings, hends⟩

end SourceUnit

namespace Sample

/-- Two values that do not fit, one of them in a constant, and one behind a return. -/
def overflowing : SourceUnit where
  name := "overflowing"
  functions :=
    [{ path := ""
       moduleName := "m"
       name := "first"
       params := [⟨"n", .u8⟩]
       returnType := some .u8
       body :=
        [.branch (.var "n") [.ret (some (.literal ⟨1, .u8⟩))]
            [.ret (some (.literal ⟨256, .u8⟩)), .print (.value (.literal ⟨-1, .u8⟩))]] },
      { path := ""
        moduleName := "m"
        name := "second"
        body := [.print (.value (.constant "limit"))] }]
  constants := [⟨"limit", .i8, 200⟩]

end Sample

/-- Two warnings, and the refusal is about the first of them. -/
theorem SourceUnit.lower_overflow_policies_overflowing :
    ∃ lowered first second,
      Sample.overflowing.lower { Settings.legacy with overflow := .warn } = .ok lowered
      ∧ lowered.diagnostics = [first, second]
      ∧ first.severity = .warning ∧ second.severity = .warning
      ∧ first.message = "in m::first: literal 256 does not fit in u8"
      ∧ ∃ function value ty,
        Sample.overflowing.lower { Settings.legacy with overflow := .reject }
          = .error (.refused (.outOfRange function value ty))
        ∧ (CompileError.outOfRange function value ty).message = first.message := by
  have hmessages : (Sample.overflowing.lower
      { Settings.legacy with overflow := .warn }).toOption.map
        (·.diagnostics.map (·.message))
      = some ["in m::first: literal 256 does not fit in u8",
        "in m::second: literal 200 does not fit in i8"] := by
    decide +kernel
  cases hlower : Sample.overflowing.lower { Settings.legacy with overflow := .warn } with
  | error abort => simp [hlower, Except.toOption] at hmessages
  | ok lowered =>
    simp only [hlower, Except.toOption, Option.map_some, Option.some.injEq, List.map_eq_cons_iff,
      List.map_eq_nil_iff] at hmessages
    obtain ⟨first, _, hdiagnostics, hfirst, second, _, rfl, hsecond, rfl⟩ := hmessages
    obtain ⟨hwarnings, hreject⟩ := (lower_overflow_policies Sample.overflowing .legacy).2 lowered
      first [second] hlower hdiagnostics
    exact ⟨lowered, first, second, rfl, hdiagnostics, hwarnings first (by simp [hdiagnostics]),
      hwarnings second (by simp [hdiagnostics]), hfirst, hreject⟩

end ScalarC
