import Mathlib.Data.List.Nodup
import ScalarC.Proofs.Lowering.UnitTyping
import ScalarC.Proofs.Name.Derived

/-!
# Names of the file

A generated file declares the functions of a unit and their string constants, next to the
names that it uses already. Registration keeps the symbols apart from each other and from
reserved names, and the check at the end of lowering keeps them apart from the string
constants. The rest follows from how string constants are named.
-/

namespace ScalarC

variable {unit : SourceUnit} {settings : Settings} {lowered : LoweredUnit} {shared : Shared}

/-- The check of names accepts functions none of whose own names is a symbol. -/
theorem LoweredFunction.checkNames_ok {symbols : List Symbol} {functions : List LoweredFunction}
    (h : checkNames symbols functions = .ok ()) :
    ∀ code ∈ functions, ∀ name ∈ code.ownNames, name ∉ symbols := by
  induction functions with
  | nil => simp
  | cons first rest ih =>
    unfold checkNames at h
    split at h
    · simp at h
    · rename_i hnone
      intro code hcode
      rcases List.mem_cons.1 hcode with rfl | hcode
      · simpa using hnone
      · exact ih h code hcode

namespace LoweredUnit

/-- The string constants of the functions, each by symbol and number. -/
def stringConstants (unit : LoweredUnit) : List (Symbol × Nat) :=
  unit.functions.flatMap fun code => (List.range code.strings.length).map (code.symbol, ·)

/-- The C names that the file declares for a unit: one for each function, and one for each
string constant. -/
def fileNames (unit : LoweredUnit) : List String :=
  unit.functions.map (·.symbol)
    ++ unit.stringConstants.map fun constant => Name.ofString constant.1 constant.2

theorem mem_stringConstants {unit : LoweredUnit} {constant : Symbol × Nat} :
    constant ∈ unit.stringConstants ↔
      ∃ code ∈ unit.functions, code.symbol = constant.1 ∧ constant.2 < code.strings.length := by
  obtain ⟨symbol, index⟩ := constant
  simp only [stringConstants, List.mem_flatMap, List.mem_map, List.mem_range, Prod.mk.injEq]
  constructor
  · rintro ⟨code, hcode, i, hi, rfl, rfl⟩
    exact ⟨code, hcode, rfl, hi⟩
  · rintro ⟨code, hcode, hsymbol, hindex⟩
    exact ⟨code, hcode, index, hindex, hsymbol, rfl⟩

/-- Functions with different symbols have different string constants. -/
theorem nodup_stringConstants {unit : LoweredUnit}
    (h : (unit.functions.map (·.symbol)).Nodup) : unit.stringConstants.Nodup := by
  refine List.nodup_flatMap.2 ⟨fun code _ => ?_, ?_⟩
  · exact List.nodup_range.map fun i j heq => (Prod.mk.inj heq).2
  · refine (List.pairwise_map.1 h).imp fun {f g} hne => ?_
    intro constant hf hg
    obtain ⟨_, _, rfl⟩ := List.mem_map.1 hf
    obtain ⟨_, _, heq⟩ := List.mem_map.1 hg
    exact hne (Prod.mk.inj heq).1.symm

end LoweredUnit

namespace Shared

/-- The functions of a unit are lowered one by one, each under its symbol. -/
theorem Describes.symbols_lowered (hshared : shared.Describes unit settings)
    {functions : List SourceFunction} {lowerings : List FunctionLowering}
    (h : List.Forall₂ shared.Lowers functions lowerings) :
    functions.map (·.symbol? settings) = lowerings.map (some ·.function.symbol) := by
  induction h with
  | nil => rfl
  | cons hfirst _ ih => rw [List.map_cons, List.map_cons, ih, hshared.symbol_of_lowers hfirst]

theorem Describes.unreserved (hshared : shared.Describes unit settings) {f : SourceFunction}
    {lowering : FunctionLowering} (h : shared.Lowers f lowering) :
    Name.isReserved lowering.function.symbol = false := by
  have hconsistent := hshared.registered.consistent
  have hsymbol := Registry.resolve_eq_ok.1 h.symbol.1
  exact hconsistent.unreserved _ f.id ((hconsistent.inverse _ _).2 hsymbol)

/-- In canonical spelling, lowering a function records no alias. -/
theorem Describes.aliases_eq (hshared : shared.Describes unit settings)
    (hcanonical : settings.spelling = .canonical) {f : SourceFunction}
    {lowering : FunctionLowering} (h : shared.Lowers f lowering) :
    lowering.aliases.entries = [] := by
  have hspelling : shared.registry.spelling = .canonical := hshared.spelling.trans hcanonical
  refine List.eq_nil_iff_forall_not_mem.2 fun entry hentry => ?_
  have hresolves := h.resolves entry.1 entry.2 (NameTable.find?_of_mem hentry)
  simpa using ((Registry.resolveSymbol_canonical hspelling).1 hresolves).2.2

end Shared

namespace SourceUnit

theorem lower_checked (h : unit.lower settings = .ok lowered) :
    LoweredFunction.checkNames (lowered.functions.map (·.symbol)) lowered.functions = .ok () := by
  simp only [lower, bind_eq_ok, mapError_eq_ok, pure_eq_ok] at h
  obtain ⟨_, _, _, _, _, _, _, hcheck, _, _, rfl⟩ := h
  exact hcheck

/-- A function of the lowered unit comes from one of the source. -/
theorem lower_lowers (h : unit.lower settings = .ok lowered) {code : LoweredFunction}
    (hcode : code ∈ lowered.functions) :
    ∃ (shared : Shared) (f : SourceFunction) (lowering : FunctionLowering),
      shared.Describes unit settings ∧ shared.Lowers f lowering ∧ lowering.function = code := by
  obtain ⟨shared, lowerings, hshared, hlower, hfunctions⟩ := lower_ok h
  rw [hfunctions] at hcode
  obtain ⟨lowering, hlowering, rfl⟩ := List.mem_map.1 hcode
  obtain ⟨f, _, hlowers⟩ := Shared.exists_lowers hlower hlowering
  exact ⟨shared, f, lowering, hshared, hlowers, rfl⟩

/-- Every function of a unit has its symbol in the lowered unit. -/
theorem lower_symbols (h : unit.lower settings = .ok lowered) :
    unit.functions.map (·.symbol? settings) = lowered.functions.map (some ·.symbol) := by
  obtain ⟨shared, lowerings, hshared, hlower, hfunctions⟩ := lower_ok h
  rw [hshared.symbols_lowered hlower, hfunctions, List.map_map]
  rfl

theorem nodup_symbols (h : unit.lower settings = .ok lowered) :
    (lowered.functions.map (·.symbol)).Nodup := by
  obtain ⟨shared, _, hshared, _, _⟩ := lower_ok h
  have hdistinct := List.pairwise_map.2 hshared.distinct_symbols
  rw [lower_symbols h] at hdistinct
  refine List.Nodup.of_map some ?_
  rwa [List.map_map]

/-- In either spelling, the names of the file are distinct and not reserved. -/
theorem nodup_fileNames (h : unit.lower settings = .ok lowered) :
    lowered.fileNames.Nodup ∧ ∀ name ∈ lowered.fileNames, Name.isReserved name = false := by
  have hsymbols := nodup_symbols h
  have hchecked := LoweredFunction.checkNames_ok (lower_checked h)
  constructor
  · refine List.nodup_append.2 ⟨hsymbols, ?_, ?_⟩
    · refine (LoweredUnit.nodup_stringConstants hsymbols).map fun a b heq => ?_
      obtain ⟨hsymbol, hindex⟩ := Name.ofString_inj.1 heq
      exact Prod.ext hsymbol hindex
    · intro symbol hsymbol name hname heq
      obtain ⟨constant, hconstant, rfl⟩ := List.mem_map.1 hname
      obtain ⟨code, hcode, hcalled, hindex⟩ := LoweredUnit.mem_stringConstants.1 hconstant
      refine hchecked code hcode _ (List.mem_append_right _ ?_) (heq ▸ hsymbol)
      exact List.mem_map.2 ⟨constant.2, List.mem_range.2 hindex, by rw [hcalled]⟩
  · intro name hname
    rcases List.mem_append.1 hname with hname | hname
    · obtain ⟨code, hcode, rfl⟩ := List.mem_map.1 hname
      obtain ⟨shared, f, lowering, hshared, hlowers, rfl⟩ := lower_lowers h hcode
      exact hshared.unreserved hlowers
    · obtain ⟨constant, _, rfl⟩ := List.mem_map.1 hname
      exact Name.isReserved_ofString _ _

/-- In canonical spelling no call needs an alias. -/
theorem aliases_canonical (h : unit.lower settings = .ok lowered)
    (hcanonical : settings.spelling = .canonical) : lowered.aliases.entries = [] := by
  obtain ⟨shared, lowerings, hshared, hlower, _, haliases⟩ := lower_aliases h
  have hnone : lowerings.flatMap (·.aliases.entries) = [] := by
    refine List.flatMap_eq_nil_iff.2 fun lowering hlowering => ?_
    obtain ⟨f, _, hlowers⟩ := Shared.exists_lowers hlower hlowering
    exact hshared.aliases_eq hcanonical hlowers
  rw [hnone] at haliases
  simp only [Shared.addAliases, Except.ok.injEq] at haliases
  rw [← haliases]
  rfl

/-- File-scope names never collide in canonical spelling. There are no aliases; the symbols
of all functions, external ones included, and the names of all string constants are pairwise
distinct, and none of them is a name that the file uses already. -/
theorem fileNames_distinct (h : unit.lower settings = .ok lowered)
    (hcanonical : settings.spelling = .canonical) :
    lowered.aliases.entries = []
      ∧ unit.functions.map (·.symbol? settings) = lowered.functions.map (some ·.symbol)
      ∧ lowered.fileNames.Nodup
      ∧ ∀ name ∈ lowered.fileNames, Name.isReserved name = false :=
  ⟨aliases_canonical h hcanonical, lower_symbols h, nodup_fileNames h⟩

end SourceUnit

/-- The symbol of the second function starts like the names of the first one's string
constants. -/
def Sample.nestedNames : SourceUnit where
  name := "nested"
  functions :=
    [{ path := ""
       moduleName := "m"
       name := "f"
       body := [.print (.text "one"), .print (.text "two")] },
      { path := "m"
        moduleName := "f"
        name := "str"
        body := [.print (.text "one")] },
      { path := "io"
        moduleName := "read"
        name := "byte"
        params := [⟨"port", .u8⟩]
        isExternal := true }]

theorem SourceUnit.fileNames_distinct_nestedNames :
    ∃ lowered, Sample.nestedNames.lower {} = .ok lowered
      ∧ lowered.fileNames = ["m_f", "m_f_str", "io_read_byte$u8", "m_f_str0", "m_f_str1",
        "m_f_str_str0"]
      ∧ lowered.aliases.entries = []
      ∧ Sample.nestedNames.functions.map (·.symbol? {}) = lowered.functions.map (some ·.symbol)
      ∧ lowered.fileNames.Nodup
      ∧ ∀ name ∈ lowered.fileNames, Name.isReserved name = false := by
  have hlower : (Sample.nestedNames.lower {}).toOption.map (·.fileNames)
      = some ["m_f", "m_f_str", "io_read_byte$u8", "m_f_str0", "m_f_str1", "m_f_str_str0"] := by
    decide +kernel
  cases h : Sample.nestedNames.lower {} with
  | error cause => simp [h, Except.toOption] at hlower
  | ok lowered =>
    simp only [h, Except.toOption, Option.map_some, Option.some.injEq] at hlower
    exact ⟨lowered, rfl, hlower, fileNames_distinct h rfl⟩

end ScalarC
