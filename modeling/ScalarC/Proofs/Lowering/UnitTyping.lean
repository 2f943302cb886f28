import ScalarC.Proofs.Lowering.Records
import ScalarC.Proofs.Lowering.Typing
import ScalarC.Proofs.Simulation.Unit

/-!
# Lowered units are well typed

A lowered unit finds the signature of every symbol that is called: among its functions,
or among the aliases, which hold the signature of the function that the spelling resolves
to. So the operations of all its functions are well typed in the unit.
-/

namespace ScalarC

def LoweredFunction.signature (code : LoweredFunction) : Signature :=
  ⟨code.symbol, code.params.map (·.ty), code.returnType⟩

namespace LoweredUnit

/-- The signature under which a symbol is called: that of the function with the symbol, or
else that of the alias. -/
def signature? (unit : LoweredUnit) (symbol : Symbol) : Option Signature :=
  ((unit.functions.find? (·.symbol == symbol)).map (·.signature)).or (unit.aliases.find? symbol)

/-- The types for the operations of one of the functions. -/
def types (unit : LoweredUnit) (code : LoweredFunction) : TypeContext :=
  code.types fun symbol signature => unit.signature? symbol = some signature

end LoweredUnit

namespace Registry

variable {registry : Registry} {spelling : String} {id : FunctionId}

/-- A call by the symbol of a definition names its owner. -/
theorem owner_of_resolveSymbol
    (h : registry.resolveSymbol spelling = .ok ⟨spelling, id, false⟩) :
    registry.owners.find? spelling = some id := by
  unfold resolveSymbol at h
  split at h
  · simp_all
  · split at h
    · split at h <;> simp at h
    · split at h
      · split at h <;> simp at h
      · simp at h

/-- An alias is not the symbol of a definition. -/
theorem owner_of_alias (h : registry.resolveSymbol spelling = .ok ⟨spelling, id, true⟩) :
    registry.owners.find? spelling = none := by
  unfold resolveSymbol at h
  split at h
  · simp at h
  · assumption

end Registry

namespace NameTable

theorem exists_mem_of_isSome {α : Type} {table : NameTable α} {name : String}
    (h : (table.find? name).isSome) : ∃ entry ∈ table.entries, entry.1 = name := by
  simp only [find?, Option.isSome_map, List.find?_isSome, beq_iff_eq] at h
  exact h

end NameTable

namespace Shared

variable {shared : Shared} {unit : SourceUnit} {settings : Settings}

/-- Adding aliases records the signature of a spelling, if all its entries have the same
target. -/
theorem find?_addAliases {entries : List (Symbol × FunctionId)}
    {aliases aliases' : NameTable Signature} (h : shared.addAliases entries aliases = .ok aliases')
    {symbol : Symbol} {id : FunctionId} {found : Signature}
    (hfound : shared.signature? id = some found)
    (hsame : ∀ entry ∈ entries, entry.1 = symbol → entry.2 = id)
    (hhas : aliases.find? symbol = some { found with symbol }
      ∨ ∃ entry ∈ entries, entry.1 = symbol) :
    aliases'.find? symbol = some { found with symbol } := by
  induction entries generalizing aliases with
  | nil =>
    simp only [addAliases, Except.ok.injEq] at h
    subst h
    simpa using hhas
  | cons entry entries ih =>
    obtain ⟨spelling, target⟩ := entry
    simp only [addAliases] at h
    split at h
    · rename_i signature hsignature
      refine ih h (fun entry hentry => hsame entry (List.mem_cons_of_mem _ hentry)) ?_
      rw [NameTable.find?_insert]
      by_cases heq : spelling = symbol
      · obtain rfl : target = id := hsame _ List.mem_cons_self heq
        rw [hsignature, Option.some.injEq] at hfound
        simp [heq, hfound]
      · simp only [heq, if_false]
        refine hhas.imp_right fun ⟨entry, hentry, hname⟩ => ?_
        rcases List.mem_cons.1 hentry with rfl | hentry
        · exact absurd hname heq
        · exact ⟨entry, hentry, hname⟩
    · simp at h

section Lowers

variable {function : SourceFunction} {lowering : FunctionLowering}

/-- A lowered function carries the signature of the source. -/
theorem Lowers.signature (h : shared.Lowers function lowering) :
    lowering.function.signature
      = ⟨lowering.function.symbol, function.paramTypes, function.returnType⟩ := by
  rcases h.derives with ⟨symbol, _, _, rfl⟩ | ⟨_, h⟩
  · rfl
  · cases h with
    | intro named params body returns => rfl

theorem Lowers.resolves (h : shared.Lowers function lowering) :
    shared.registry.Resolves lowering.aliases := by
  rcases h.derives with ⟨symbol, _, _, rfl⟩ | ⟨_, h⟩
  · intro spelling id hfound
    simp at hfound
  · exact h.resolves

/-- The code of a function is typed by its own tables, and calls what the unit shares. -/
theorem Lowers.typed (h : shared.Lowers function lowering) :
    (lowering.function.types (shared.Calls lowering.aliases)).Types lowering.function.ops := by
  rcases h.derives with ⟨symbol, _, _, rfl⟩ | ⟨_, h⟩
  · exact .nil
  · exact h.typed

/-- String constants are printed in the order of their numbers, each once. -/
theorem Lowers.strings_eq (h : shared.Lowers function lowering) :
    Op.strings lowering.function.ops = List.range lowering.function.strings.length := by
  rcases h.derives with ⟨symbol, _, _, rfl⟩ | ⟨_, h⟩
  · rfl
  · cases h with
    | intro named params body returns =>
      exact (params.records.after body.records).strings.symm

end Lowers

/-- Every lowered function comes from one of the source. -/
theorem exists_lowers {functions : List SourceFunction} {lowerings : List FunctionLowering}
    (h : List.Forall₂ shared.Lowers functions lowerings) {lowering : FunctionLowering}
    (hmem : lowering ∈ lowerings) : ∃ f ∈ functions, shared.Lowers f lowering := by
  induction h with
  | nil => simp at hmem
  | @cons f first functions lowerings hfirst _ ih =>
    rcases List.mem_cons.1 hmem with rfl | hmem
    · exact ⟨f, List.mem_cons_self, hfirst⟩
    · obtain ⟨g, hg, hlowers⟩ := ih hmem
      exact ⟨g, List.mem_cons_of_mem _ hg, hlowers⟩

variable {lowerings : List FunctionLowering}

/-- What functions may call by the symbols they share and their aliases, the lowered unit
finds. -/
theorem Describes.signature?_of_calls (hshared : shared.Describes unit settings)
    {lowered : LoweredUnit} (hlower : List.Forall₂ shared.Lowers unit.functions lowerings)
    (hfunctions : lowered.functions = lowerings.map (·.function))
    (haliases : shared.addAliases (lowerings.flatMap (·.aliases.entries)) .empty
      = .ok lowered.aliases)
    {lowering : FunctionLowering} (hmem : lowering ∈ lowerings) {symbol : Symbol}
    {signature : Signature} (hcalls : shared.Calls lowering.aliases symbol signature) :
    lowered.signature? symbol = some signature := by
  obtain ⟨id, found, hfound, rfl, hnames⟩ := hcalls
  obtain ⟨f, hf, rfl, hsymbol, hparams, hreturns⟩ :=
    (hshared.registered.signature id found).1 hfound
  -- a function that is called by its own symbol is found under it
  have howned : symbol = found.symbol →
      lowered.signature? symbol = some { found with symbol } := by
    rintro rfl
    obtain ⟨code, hcode, hfind⟩ := hshared.find?_lowered hlower hshared.distinct_symbols hf
    have hsame := (symbol?_eq_some hshared).1 (hshared.symbol_of_lowers hcode)
    rw [hsymbol, Except.ok.injEq] at hsame
    rw [LoweredUnit.signature?, hfunctions, hsame, hfind, Option.map_some, Option.some_or,
      hcode.signature, ← hsame, ← hparams, ← hreturns]
  rcases hnames with hname | hresolve | ⟨hresolve, halias⟩
  · exact howned hname
  · obtain ⟨g, _, hid, howner⟩ := (hshared.registered.owner symbol f.id).1
      (Registry.owner_of_resolveSymbol hresolve)
    rw [hsymbol, Except.ok.injEq] at howner
    exact howned howner.symm
  · -- no function owns the spelling, and every function that uses it means the same target
    have hfree : lowered.functions.find? (·.symbol == symbol) = none := by
      rw [List.find?_eq_none, hfunctions]
      intro code hcode heq
      obtain ⟨other, hother, rfl⟩ := List.mem_map.1 hcode
      obtain ⟨g, hg, hlowers⟩ := exists_lowers hlower hother
      have howner := (hshared.registered.owner _ g.id).2
        ⟨g, hg, rfl, hshared.registered.symbolOf_of_resolve hlowers.symbol.1⟩
      rw [beq_iff_eq.1 heq, Registry.owner_of_alias hresolve] at howner
      simp at howner
    have hsame : ∀ entry ∈ lowerings.flatMap (·.aliases.entries), entry.1 = symbol →
        entry.2 = f.id := by
      rintro entry hentry rfl
      obtain ⟨other, hother, hentry⟩ := List.mem_flatMap.1 hentry
      obtain ⟨g, _, hlowers⟩ := exists_lowers hlower hother
      have hsecond := hlowers.resolves entry.1 entry.2 (NameTable.find?_of_mem hentry)
      rw [hresolve] at hsecond
      simpa using hsecond.symm
    obtain ⟨entry, hentry, hname⟩ := NameTable.exists_mem_of_isSome halias
    rw [LoweredUnit.signature?, hfree, Option.map_none, Option.none_or]
    exact find?_addAliases haliases hfound hsame
      (.inr ⟨entry, List.mem_flatMap.2 ⟨lowering, hmem, hentry⟩, hname⟩)

end Shared

namespace SourceUnit

variable {unit : SourceUnit} {settings : Settings} {lowered : LoweredUnit}

/-- The aliases of a lowered unit are those that its functions recorded. -/
theorem lower_aliases (h : unit.lower settings = .ok lowered) :
    ∃ (shared : Shared) (lowerings : List FunctionLowering), shared.Describes unit settings
      ∧ List.Forall₂ shared.Lowers unit.functions lowerings
      ∧ lowered.functions = lowerings.map (·.function)
      ∧ shared.addAliases (lowerings.flatMap (·.aliases.entries)) .empty = .ok lowered.aliases := by
  simp only [lower, bind_eq_ok, mapError_eq_ok, pure_eq_ok] at h
  obtain ⟨shared, hshared, lowerings, hlower, aliases, haliases, _, _, _, _, rfl⟩ := h
  exact ⟨shared, lowerings, Shared.describes_ofUnit hshared, Shared.lowerFunctions_ok hlower, rfl,
    haliases⟩

/-- The lowered form is well typed. Every operation of every function follows the typing
rules, by the tables of the function and the signatures of the unit; and the string
constants are printed in the order of their numbers, each exactly once. -/
theorem lower_wellTyped (h : unit.lower settings = .ok lowered) {code : LoweredFunction}
    (hcode : code ∈ lowered.functions) :
    (∀ op ∈ Op.nestedAll code.ops, op.WellTyped (lowered.types code))
      ∧ Op.strings code.ops = List.range code.strings.length := by
  obtain ⟨shared, lowerings, hshared, hlower, hfunctions, haliases⟩ := lower_aliases h
  rw [hfunctions] at hcode
  obtain ⟨lowering, hmem, rfl⟩ := List.mem_map.1 hcode
  obtain ⟨f, _, hlowers⟩ := Shared.exists_lowers hlower hmem
  have hle : (lowering.function.types (shared.Calls lowering.aliases)).Le
      (lowered.types lowering.function) :=
    ⟨fun hty => hty, fun hty => hty, hshared.signature?_of_calls hlower hfunctions haliases hmem⟩
  exact ⟨hlowers.typed.mono hle, hlowers.strings_eq⟩

end SourceUnit

/-- Calls a function by a spelling that differs from its symbol in the hyphen. -/
def Sample.halves : SourceUnit where
  name := "halves"
  functions :=
    [{ path := ""
       moduleName := "math-ops"
       name := "half"
       params := [⟨"n", .u16⟩]
       returnType := some .u16
       body := [.ret (some (.binary .div (.var "n") (.literal ⟨2, .u16⟩)))] },
      { path := ""
        moduleName := "m"
        name := "main"
        params := [⟨"n", .u8⟩]
        body :=
          [.print (.text "half: "),
            .loop (.binary .gt (.var "n") (.literal ⟨300, .u8⟩))
              [.print (.value (.call (.symbol "math_ops_half$u16") [.var "n"])),
                .print (.text "\n")]] }]

/-- The sample is lowered with an alias and a literal that wraps. -/
theorem SourceUnit.lower_wellTyped_halves :
    ∃ lowered code, Sample.halves.lower { Settings.legacy with entry := none } = .ok lowered
      ∧ code ∈ lowered.functions ∧ code.symbol = "m_main$u8"
      ∧ lowered.signature? "math_ops_half$u16"
        = some ⟨"math_ops_half$u16", [.u16], some .u16⟩
      ∧ (∀ op ∈ Op.nestedAll code.ops, op.WellTyped (lowered.types code))
      ∧ Op.strings code.ops = List.range code.strings.length := by
  have hlower : (Sample.halves.lower { Settings.legacy with entry := none }).toOption.map
      (fun lowered => (lowered.functions.map (·.symbol), lowered.signature? "math_ops_half$u16"))
      = some (["math-ops_half$u16", "m_main$u8"],
        some ⟨"math_ops_half$u16", [.u16], some .u16⟩) := by
    decide +kernel
  cases h : Sample.halves.lower { Settings.legacy with entry := none } with
  | error cause => simp [h, Except.toOption] at hlower
  | ok lowered =>
    simp only [h, Except.toOption, Option.map_some, Option.some.injEq, Prod.mk.injEq] at hlower
    obtain ⟨hsymbols, hsignature⟩ := hlower
    have hmem : "m_main$u8" ∈ lowered.functions.map (·.symbol) := by simp [hsymbols]
    obtain ⟨code, hcode, hsymbol⟩ := List.mem_map.1 hmem
    exact ⟨lowered, code, rfl, hcode, hsymbol, hsignature, lower_wellTyped h hcode⟩

end ScalarC
