import ScalarC.Generate
import ScalarC.Proofs.Lowering.Registers
import ScalarC.Proofs.Lowering.UnitTyping

/-!
# Writing lowered code succeeds

Writing a function looks up the types of registers and locals in its tables. The look-ups
of well-typed operations all succeed, at every depth, so every lowered unit can be written,
and generating C stops only where lowering does.
-/

namespace ScalarC

namespace LoweredFunction

variable {code : LoweredFunction} {Calls : Symbol → Signature → Prop}

theorem typeOfRegister_ok {r : Register} {ty : Scalar} (h : code.registerType? r = some ty) :
    code.typeOfRegister r = .ok ty := by
  simp [typeOfRegister, h]

theorem typeOfLocal_ok {name : String} {ty : Scalar} (h : code.localType? name = some ty) :
    code.typeOfLocal name = .ok ty := by
  simp [typeOfLocal, h]

mutual

/-- A well-typed operation has lines. -/
theorem exists_opLines (indent : String) (op : Op)
    (h : ∀ other ∈ op.nested, other.WellTyped (code.types Calls)) :
    ∃ lines, code.opLines indent op = .ok lines := by
  have hop := h op op.mem_nested_self
  cases op with
  | loadConst dest value => exact ⟨_, rfl⟩
  | loadLocal dest name => exact ⟨_, rfl⟩
  | copy dest src | cast dest src =>
    obtain ⟨source, target, hsource, htarget⟩ := hop
    simp only [opLines, typeOfRegister_ok hsource, typeOfRegister_ok htarget]
    exact ⟨_, rfl⟩
  | storeLocal name src =>
    obtain ⟨source, target, hsource, htarget⟩ := hop
    simp only [opLines, typeOfRegister_ok hsource, typeOfLocal_ok htarget]
    exact ⟨_, rfl⟩
  | binary dest op lhs rhs =>
    obtain ⟨left, right, hleft, hright, hdest⟩ := hop
    simp only [opLines, typeOfRegister_ok hleft, typeOfRegister_ok hdest]
    exact ⟨_, rfl⟩
  | call dest callee args => cases dest <;> exact ⟨_, rfl⟩
  | print routine arg => exact ⟨_, rfl⟩
  | ret value => cases value <;> exact ⟨_, rfl⟩
  | branch cond thenOps elseOps =>
    obtain ⟨thenLines, hthen⟩ := exists_opsLines (indent ++ "    ") thenOps
      fun other hother => h other (by simp [Op.nested, hother])
    obtain ⟨elseLines, helse⟩ := exists_opsLines (indent ++ "    ") elseOps
      fun other hother => h other (by simp [Op.nested, hother])
    simp only [opLines, hthen, helse]
    exact ⟨_, rfl⟩
  | loop condOps cond body =>
    obtain ⟨condLines, hcond⟩ := exists_opsLines (indent ++ "    ") condOps
      fun other hother => h other (by simp [Op.nested, hother])
    obtain ⟨bodyLines, hbody⟩ := exists_opsLines (indent ++ "    ") body
      fun other hother => h other (by simp [Op.nested, hother])
    simp only [opLines, hcond, hbody]
    exact ⟨_, rfl⟩

theorem exists_opsLines (indent : String) (ops : List Op) (h : (code.types Calls).Types ops) :
    ∃ lines, code.opsLines indent ops = .ok lines := by
  cases ops with
  | nil => exact ⟨_, rfl⟩
  | cons op rest =>
    obtain ⟨first, hfirst⟩ := exists_opLines indent op
      fun other hother => h other (by simp [Op.nestedAll, hother])
    obtain ⟨lines, hlines⟩ := exists_opsLines indent rest
      fun other hother => h other (by simp [Op.nestedAll, hother])
    simp only [opsLines, hfirst, hlines]
    exact ⟨_, rfl⟩

end

/-- A definition: a comment, the signature, the header and the lines of the body. -/
theorem definition_eq (settings : Settings) (h : (code.types Calls).Types code.ops) :
    ∃ body, code.opsLines "    " code.ops = .ok body
      ∧ code.definition settings = .ok (
        ["// " ++ code.name, code.signatureText ++ " \x7b"] ++ code.headerLines settings
          ++ (if (code.headerLines settings).isEmpty || code.ops.isEmpty then [] else [""])
          ++ body ++ ["\x7d"]) := by
  obtain ⟨body, hbody⟩ := exists_opsLines "    " code.ops h
  refine ⟨body, hbody, ?_⟩
  rw [definition, hbody]
  rfl

end LoweredFunction

namespace LoweredUnit

theorem exists_definitionLines (settings : Settings) {functions : List LoweredFunction}
    (h : ∀ code ∈ functions, ∃ Calls, (code.types Calls).Types code.ops) :
    ∃ lines, definitionLines settings functions = .ok lines := by
  induction functions with
  | nil => exact ⟨_, rfl⟩
  | cons code rest ih =>
    obtain ⟨lines, hlines⟩ := ih fun other hother => h other (List.mem_cons_of_mem _ hother)
    obtain ⟨Calls, htyped⟩ := h code List.mem_cons_self
    obtain ⟨body, _, hdefinition⟩ := LoweredFunction.definition_eq settings htyped
    simp only [definitionLines, hdefinition, hlines]
    split <;> exact ⟨_, rfl⟩

/-- A unit of typed functions can be written, whatever the settings. -/
theorem exists_emit (settings : Settings) {unit : LoweredUnit}
    (h : ∀ code ∈ unit.functions, ∃ Calls, (code.types Calls).Types code.ops) :
    ∃ text, unit.emit settings = .ok text := by
  obtain ⟨lines, hlines⟩ := exists_definitionLines settings h
  simp only [emit, fileLines, hlines]
  exact ⟨_, rfl⟩

end LoweredUnit

namespace SourceUnit

theorem exists_emit_of_lower {unit : SourceUnit} {settings : Settings} {lowered : LoweredUnit}
    (h : unit.lower settings = .ok lowered) (settings' : Settings) :
    ∃ text, lowered.emit settings' = .ok text := by
  obtain ⟨shared, lowerings, _, hlower, hfunctions⟩ := lower_ok h
  refine LoweredUnit.exists_emit settings' fun code hcode => ?_
  rw [hfunctions] at hcode
  obtain ⟨lowering, hmem, rfl⟩ := List.mem_map.1 hcode
  obtain ⟨f, _, hlowers⟩ := Shared.exists_lowers hlower hmem
  exact ⟨_, hlowers.typed⟩

/-- Writing cannot fail behind lowering. Lowering never misses a register; a lowered unit is
written with any settings; and C is generated exactly if the unit is lowered, with the
warnings of lowering, and otherwise stops as lowering does. -/
theorem generate_of_lower (unit : SourceUnit) (settings : Settings) :
    (∀ r, unit.lower settings ≠ .error (.missingRegister r))
      ∧ (∀ lowered, unit.lower settings = .ok lowered →
        (∀ settings', ∃ text, lowered.emit settings' = .ok text)
          ∧ ∃ text, lowered.emit settings = .ok text
            ∧ unit.generate settings = .ok ⟨text, lowered.diagnostics⟩)
      ∧ (∀ abort, unit.lower settings = .error abort →
        unit.generate settings = .error abort) := by
  refine ⟨unit.finds_lower settings, fun lowered h => ⟨exists_emit_of_lower h, ?_⟩,
    fun abort h => ?_⟩
  · obtain ⟨text, htext⟩ := exists_emit_of_lower h settings
    refine ⟨text, htext, ?_⟩
    rw [generate, h]
    simp only [bind, Except.bind, htext]
    rfl
  · rw [generate, h]
    rfl

/-- The sample with an alias is written with one warning; with an entry point that takes
parameters it is refused before anything is written. -/
theorem generate_of_lower_halves :
    (∃ text warning, Sample.halves.generate { Settings.legacy with entry := none }
        = .ok ⟨text, [warning]⟩)
      ∧ Sample.halves.generate .legacy
        = .error (.refused (.invalidEntry "'main' takes 1 parameters, expected none")) := by
  constructor
  · have hwarnings : (Sample.halves.lower { Settings.legacy with entry := none }).toOption.map
        (·.diagnostics.length) = some 1 := by
      decide +kernel
    cases h : Sample.halves.lower { Settings.legacy with entry := none } with
    | error abort => simp [h, Except.toOption] at hwarnings
    | ok lowered =>
      simp only [h, Except.toOption, Option.map_some, Option.some.injEq] at hwarnings
      obtain ⟨warning, hwarning⟩ := List.length_eq_one_iff.1 hwarnings
      obtain ⟨_, text, _, hgenerate⟩ := (generate_of_lower _ _).2.1 lowered h
      exact ⟨text, warning, hwarning ▸ hgenerate⟩
  · have hrefused : (Sample.halves.lower .legacy).map (·.name)
        = .error (.refused (.invalidEntry "'main' takes 1 parameters, expected none")) := by
      decide +kernel
    cases h : Sample.halves.lower .legacy with
    | ok lowered =>
      rw [h] at hrefused
      cases hrefused
    | error abort =>
      rw [h] at hrefused
      cases hrefused
      exact (generate_of_lower _ _).2.2 _ h

end SourceUnit

end ScalarC
