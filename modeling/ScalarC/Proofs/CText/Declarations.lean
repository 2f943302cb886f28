import ScalarC.Proofs.Assignment
import ScalarC.Proofs.CText.Emission
import ScalarC.Proofs.CText.ReadBack
import ScalarC.Proofs.Lowering.Tables

/-!
# Declarations of a definition

The C definition of a function declares its locals and registers and has a `(void)` line
for each variable that nothing reads. Both are taken from the marks of the tables, which
are exact: so every variable that the body mentions is declared exactly once, and exactly
the unread ones are voided.
-/

namespace ScalarC

/-- Registers have different C names. -/
theorem Register.name_inj {r r' : Register} : r.name = r'.name ↔ r = r' := by
  constructor
  · intro h
    have hdigits : Nat.toDigits 10 r.number = Nat.toDigits 10 r'.number := by
      simpa [name] using congrArg String.toList h
    have hnumber := congrArg (Nat.ofDigitChars 10 · 0) hdigits
    obtain ⟨n⟩ := r
    obtain ⟨n'⟩ := r'
    simpa using hnumber
  · rintro rfl
    rfl

theorem Name.ofLocal_inj {name name' : String} : ofLocal name = ofLocal name' ↔ name = name' := by
  simp [ofLocal]

theorem Register.name_ne_ofLocal (r : Register) (name : String) : r.name ≠ Name.ofLocal name := by
  intro h
  have hheads := congrArg (·.toList.head?) h
  simp [Register.name, Name.ofLocal] at hheads

namespace LoweredFunction

/-- The variables that the definition declares, with their types. -/
def declarations (settings : Settings) (code : LoweredFunction) : List (Scalar × String) :=
  (code.locals.filter (!·.isParam)).map (fun l => (l.ty, Name.ofLocal l.name))
    ++ (code.declaredRegisters settings).map (fun row => (row.ty, row.register.name))

/-- The C names that the body may use: those of the parameters, and the declared ones. -/
def scopeNames (settings : Settings) (code : LoweredFunction) : List String :=
  code.params.map (Name.ofLocal ·.name) ++ (code.declarations settings).map (·.2)

/-- The C names that have a `(void)` line. -/
def voided (settings : Settings) (code : LoweredFunction) : List String :=
  (code.locals.filter (!·.read)).map (Name.ofLocal ·.name)
    ++ ((code.declaredRegisters settings).filter (!·.read)).map (·.register.name)

/-- The C names of the registers and locals that the operations mention. -/
def mentioned (code : LoweredFunction) : List String :=
  (Op.dests code.ops ++ Op.reads code.ops).map Register.name
    ++ (Op.loads code.ops ++ Op.stores code.ops).map Name.ofLocal

/-- The C names of the registers and locals that the operations read. -/
def used (code : LoweredFunction) : List String :=
  (Op.reads code.ops).map Register.name ++ (Op.loads code.ops).map Name.ofLocal

/-- The definition declares every variable that the body mentions, none of them twice, and
voids exactly those that nothing reads. -/
structure DeclaresExactly (settings : Settings) (code : LoweredFunction) : Prop where
  definition_eq : ∃ body, code.opsLines "    " code.ops = .ok body
    ∧ code.definition settings = .ok (
      ["// " ++ code.name, code.signatureText ++ " \x7b"]
        ++ (code.declarations settings).map (fun d => declaration d.1 d.2)
        ++ (code.voided settings).map unused
        ++ (if (code.headerLines settings).isEmpty || code.ops.isEmpty then [] else [""])
        ++ body ++ ["\x7d"])
  once : (code.scopeNames settings).Nodup
  mentioned : ∀ name ∈ code.mentioned, name ∈ code.scopeNames settings
  voided_once : (code.voided settings).Nodup
  voided_iff : ∀ name, name ∈ code.voided settings ↔
    name ∈ code.scopeNames settings ∧ name ∉ code.used

variable {code : LoweredFunction}

theorem headerLines_eq (settings : Settings) (code : LoweredFunction) :
    code.headerLines settings
      = (code.declarations settings).map (fun d => declaration d.1 d.2)
        ++ (code.voided settings).map unused := by
  simp [headerLines, declarations, voided, Function.comp_def]

@[simp] theorem ofLocal_mem_used {name : String} :
    Name.ofLocal name ∈ code.used ↔ name ∈ Op.loads code.ops := by
  simp [used, Name.ofLocal_inj, Register.name_ne_ofLocal]

@[simp] theorem name_mem_used {r : Register} : r.name ∈ code.used ↔ r ∈ Op.reads code.ops := by
  simp [used, Register.name_inj, (Register.name_ne_ofLocal r _).symm]

/-- The variables are those of the slots and of the declared registers. -/
theorem scopeNames_perm (settings : Settings)
    (hparams : (code.locals.filter (·.isParam)).map (·.name) = code.params.map (·.name)) :
    (code.scopeNames settings).Perm (code.locals.map (Name.ofLocal ·.name)
      ++ (code.declaredRegisters settings).map (·.register.name)) := by
  have hslots : code.params.map (Name.ofLocal ·.name)
      = (code.locals.filter (·.isParam)).map (Name.ofLocal ·.name) := by
    simpa [Function.comp_def] using (congrArg (List.map Name.ofLocal) hparams).symm
  have hsplit := (List.filter_append_perm (·.isParam) code.locals).map (Name.ofLocal ·.name)
  simp only [scopeNames, declarations, hslots, List.map_append, List.map_map, Function.comp_def,
    ← List.append_assoc] at hsplit ⊢
  exact hsplit.append_right _

theorem nodup_scopeNames (settings : Settings) (hlocals : (code.locals.map (·.name)).Nodup)
    (hnumbered : code.registers.map (·.register.number)
      = List.range' 1 code.registers.length) :
    (code.locals.map (Name.ofLocal ·.name)
      ++ (code.declaredRegisters settings).map (·.register.name)).Nodup := by
  have hregisters : ((code.declaredRegisters settings).map (·.register)).Nodup := by
    refine List.Nodup.sublist (List.filter_sublist.map _) (List.Nodup.of_map Register.number ?_)
    rw [List.map_map, Function.comp_def, hnumbered]
    exact List.nodup_range'
  refine List.nodup_append.2 ⟨?_, ?_, ?_⟩
  · have hnames := hlocals.map (f := Name.ofLocal) fun _ _ => Name.ofLocal_inj.1
    simpa [Function.comp_def] using hnames
  · have hnames := hregisters.map (f := Register.name) fun _ _ => Register.name_inj.1
    simpa [Function.comp_def] using hnames
  · intro name hname other hother heq
    obtain ⟨slot, _, rfl⟩ := List.mem_map.1 hname
    obtain ⟨row, _, rfl⟩ := List.mem_map.1 hother
    exact Register.name_ne_ofLocal _ _ heq.symm

/-- The marks decide which variables are voided. -/
theorem mem_voided (settings : Settings) (h : code.TablesExact) {name : String} :
    name ∈ code.voided settings ↔
      name ∈ code.locals.map (Name.ofLocal ·.name)
        ++ (code.declaredRegisters settings).map (·.register.name)
      ∧ name ∉ code.used := by
  simp only [voided, List.mem_append, List.mem_map, List.mem_filter, Bool.not_eq_true']
  constructor
  · rintro (⟨slot, ⟨hslot, hread⟩, rfl⟩ | ⟨row, ⟨hrow, hread⟩, rfl⟩)
    · refine ⟨.inl ⟨slot, hslot, rfl⟩, ?_⟩
      rw [ofLocal_mem_used, ← h.loaded slot hslot]
      simp [hread]
    · refine ⟨.inr ⟨row, hrow, rfl⟩, ?_⟩
      rw [name_mem_used, ← h.read row (List.mem_filter.1 hrow).1]
      simp [hread]
  · rintro ⟨⟨slot, hslot, rfl⟩ | ⟨row, hrow, rfl⟩, hunused⟩
    · rw [ofLocal_mem_used, ← h.loaded slot hslot, Bool.not_eq_true] at hunused
      exact .inl ⟨slot, ⟨hslot, hunused⟩, rfl⟩
    · rw [name_mem_used, ← h.read row (List.mem_filter.1 hrow).1, Bool.not_eq_true] at hunused
      exact .inr ⟨row, ⟨hrow, hunused⟩, rfl⟩

/-- A register that some operation writes is declared, whatever the settings. -/
theorem mem_declaredRegisters (settings : Settings) (h : code.TablesExact) {r : Register}
    (hr : r ∈ Op.dests code.ops) : r ∈ (code.declaredRegisters settings).map (·.register) := by
  obtain ⟨row, hrow, rfl⟩ := List.mem_map.1 (h.listed r (List.mem_append_left _ hr))
  have hwritten := (h.written row hrow).2 hr
  exact List.mem_map_of_mem (List.mem_filter.2 ⟨hrow, by simp [hwritten]⟩)

theorem mem_scope_of_mentioned (settings : Settings) (h : code.TablesExact)
    (hreads : ∀ r ∈ Op.reads code.ops, r ∈ Op.dests code.ops) {name : String}
    (hname : name ∈ code.mentioned) :
    name ∈ code.locals.map (Name.ofLocal ·.name)
      ++ (code.declaredRegisters settings).map (·.register.name) := by
  rcases List.mem_append.1 hname with hname | hname
  · obtain ⟨r, hr, rfl⟩ := List.mem_map.1 hname
    have hdest : r ∈ Op.dests code.ops := (List.mem_append.1 hr).elim id (hreads r)
    obtain ⟨row, hrow, rfl⟩ := List.mem_map.1 (mem_declaredRegisters settings h hdest)
    exact List.mem_append_right _ (List.mem_map.2 ⟨row, hrow, rfl⟩)
  · obtain ⟨name, hmentioned, rfl⟩ := List.mem_map.1 hname
    obtain ⟨slot, hslot, rfl⟩ := List.mem_map.1 (h.declared name hmentioned)
    exact List.mem_append_left _ (List.mem_map.2 ⟨slot, hslot, rfl⟩)

end LoweredFunction

theorem LowersFunction.declaresExactly {shared : Shared} {function : SourceFunction}
    {lowering : FunctionLowering} (h : LowersFunction shared function lowering)
    (settings : Settings) : lowering.function.DeclaresExactly settings := by
  have hexact := h.tablesExact
  obtain ⟨hlocals, hparams⟩ := h.slots
  have hperm := LoweredFunction.scopeNames_perm settings hparams
  have hnodup := LoweredFunction.nodup_scopeNames settings hlocals hexact.numbered
  constructor
  · obtain ⟨body, hbody, hdefinition⟩ := LoweredFunction.definition_eq settings h.typed
    refine ⟨body, hbody, hdefinition.trans ?_⟩
    rw [LoweredFunction.headerLines_eq]
    simp only [List.append_assoc]
  · exact hperm.nodup_iff.2 hnodup
  · intro name hname
    exact hperm.mem_iff.2 (LoweredFunction.mem_scope_of_mentioned settings hexact h.reads_written hname)
  · exact hnodup.sublist ((List.filter_sublist.map _).append (List.filter_sublist.map _))
  · intro name
    rw [LoweredFunction.mem_voided settings hexact, hperm.mem_iff]

/-- Neither its second parameter, nor its local, nor the value of its first statement is
read. -/
def Sample.ignores : SourceFunction where
  path := ""
  moduleName := "m"
  name := "f"
  params := [⟨"n", .u8⟩, ⟨"spare", .u8⟩]
  body :=
    [.eval (.binary .add (.var "n") (.literal ⟨1, .u8⟩)),
      .declare "x" .u16 none,
      .branch (.var "n") [.assign "x" (.literal ⟨7, .u16⟩)] []]

namespace Shared

/-- A lowered function assigns each register once, and its tables are exact. So its
definition, with or without the reserved registers, declares what the body mentions exactly
once and voids exactly what nothing reads. -/
theorem lowerFunction_tablesExact {shared : Shared} {function : SourceFunction}
    {lowering : FunctionLowering} (h : shared.lowerFunction function = .ok lowering) :
    lowering.function.TablesExact
      ∧ ∀ settings, lowering.function.DeclaresExactly settings :=
  ⟨(lowerFunction_derives h).tablesExact, (lowerFunction_derives h).declaresExactly⟩

/-- The sample reserves registers for parameters and the local, which are declared only if
the settings say so. -/
theorem lowerFunction_tablesExact_ignores :
    ∃ (shared : Shared) (lowering : FunctionLowering),
      shared.lowerFunction Sample.ignores = .ok lowering
      ∧ lowering.function.scopeNames {} = ["v_n", "v_spare", "v_x", "r3", "r4", "r5", "r7", "r8"]
      ∧ lowering.function.voided {} = ["v_spare", "v_x", "r5"]
      ∧ lowering.function.voided { declareReserved := true }
        = ["v_spare", "v_x", "r1", "r2", "r5", "r6"]
      ∧ lowering.function.TablesExact
      ∧ ∀ settings, lowering.function.DeclaresExactly settings := by
  let shared := Sample.shared Sample.ignores "m_f$u8$u8"
  have hnames : (shared.lowerFunction Sample.ignores).toOption.map (fun lowering =>
      (lowering.function.scopeNames {}, lowering.function.voided {},
        lowering.function.voided { declareReserved := true }))
      = some (["v_n", "v_spare", "v_x", "r3", "r4", "r5", "r7", "r8"], ["v_spare", "v_x", "r5"],
        ["v_spare", "v_x", "r1", "r2", "r5", "r6"]) := by
    decide +kernel
  cases h : shared.lowerFunction Sample.ignores with
  | error cause => simp [h, Except.toOption] at hnames
  | ok lowering =>
    simp only [h, Except.toOption, Option.map_some, Option.some.injEq, Prod.mk.injEq] at hnames
    obtain ⟨hscope, hvoided, hreserved⟩ := hnames
    exact ⟨shared, lowering, h, hscope, hvoided, hreserved, lowerFunction_tablesExact h⟩

end Shared

end ScalarC
