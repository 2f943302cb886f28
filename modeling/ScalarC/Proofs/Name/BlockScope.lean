import ScalarC.Proofs.CText.Declarations
import ScalarC.Proofs.Name.FileScope

/-!
# Names of the block

The definition of a function declares its parameters, locals and registers in a block. In C
such a name hides the same name of the file, so that the body cannot refer to the function
or string constant that has it. The symbols of functions are never hidden. A string
constant is hidden by a local that is spelled like it, which takes a symbol that starts
like the name of a local.
-/

namespace ScalarC

variable {unit : SourceUnit} {settings : Settings} {lowered : LoweredUnit}
  {code : LoweredFunction}

namespace LoweredFunction

/-- The C names of the parameters and locals, and of the registers. -/
def blockNames (code : LoweredFunction) : List String :=
  code.locals.map (Name.ofLocal ·.name) ++ code.registers.map (·.register.name)

/-- In the body, the name does not stand for what the file declares under it. -/
def Hides (code : LoweredFunction) (name : String) : Prop := name ∈ code.blockNames

/-- A local of the function is spelled like a string constant of the other one, which has no
parameters and a symbol that starts like the C name of a local. -/
def SpellsString (code owner : LoweredFunction) (index : Nat) : Prop :=
  owner.params = [] ∧ ∃ rest, owner.symbol = "v_" ++ rest
    ∧ rest ++ "_str" ++ toString index ∈ code.locals.map (·.name)

/-- The name of the file that an operation refers to: the callee, or the string constant. -/
def reference? (code : LoweredFunction) : Op → Option String
  | .call _ callee _ => some callee
  | .print _ (.string index) => some (Name.ofString code.symbol index)
  | _ => none

/-- The names of the file that the body refers to, in the order of the code. -/
def references (code : LoweredFunction) : List String :=
  (Op.nestedAll code.ops).filterMap code.reference?

theorem nodup_blockNames (hlocals : (code.locals.map (·.name)).Nodup)
    (hnumbered : code.registers.map (·.register.number)
      = List.range' 1 code.registers.length) : code.blockNames.Nodup := by
  have hall := nodup_scopeNames { declareReserved := true } hlocals hnumbered
  simpa [blockNames, declaredRegisters] using hall

/-- The definition declares no other names, whichever registers it leaves out. -/
theorem scopeNames_subset (settings : Settings)
    (hparams : (code.locals.filter (·.isParam)).map (·.name) = code.params.map (·.name)) :
    code.scopeNames settings ⊆ code.blockNames := by
  intro name hname
  rcases List.mem_append.1 ((scopeNames_perm settings hparams).mem_iff.1 hname) with hname | hname
  · exact List.mem_append_left _ hname
  · exact List.mem_append_right _ ((List.filter_sublist.map _).subset hname)

end LoweredFunction

/-! ## Spelling -/

theorem Register.toList_name (r : Register) :
    r.name.toList = 'r' :: Nat.toDigits 10 r.number := by
  simp [name]

theorem Register.underscore_notMem_name (r : Register) : '_' ∉ r.name.toList := by
  rw [toList_name]
  intro hmem
  rcases List.mem_cons.1 hmem with hmem | hmem
  · exact absurd hmem (by decide)
  · have hdigit := Nat.isDigit_of_mem_toDigits (by decide) (by decide) hmem
    exact absurd hdigit (by decide)

theorem Name.toList_ofLocal (name : String) :
    (ofLocal name).toList = 'v' :: '_' :: name.toList := by
  simp [ofLocal]

theorem Name.isPart_ofLocal {name : String} (hname : isIdentifier name = true) {c : Char}
    (hc : c ∈ (ofLocal name).toList) : isPart c = true := by
  rw [toList_ofLocal] at hc
  rcases List.mem_cons.1 hc with rfl | hc
  · decide
  · rcases List.mem_cons.1 hc with rfl | hc
    · decide
    · exact isPart_of_isIdentifier hname hc

/-- A local is spelled like a string constant if the symbol goes on behind `v_` and the
name of the local repeats what follows there. -/
theorem Name.ofLocal_eq_ofString {name : String} {symbol : Symbol} {index : Nat}
    (hsymbol : '_' ∈ symbol.toList) :
    ofLocal name = ofString symbol index ↔
      ∃ rest, symbol = "v_" ++ rest ∧ name = rest ++ "_str" ++ toString index := by
  constructor
  · intro h
    have hchars := congrArg String.toList h
    rw [toList_ofLocal, toList_ofString] at hchars
    cases hfirst : symbol.toList with
    | nil => simp [hfirst] at hsymbol
    | cons c tail =>
      rw [hfirst, List.cons_append, List.cons.injEq] at hchars
      obtain ⟨rfl, hchars⟩ := hchars
      cases tail with
      | nil => simp [hfirst] at hsymbol
      | cons d rest =>
        rw [List.cons_append, List.cons.injEq] at hchars
        obtain ⟨rfl, hchars⟩ := hchars
        refine ⟨String.ofList rest, String.toList_injective ?_, String.toList_injective ?_⟩
        · simp [hfirst]
        · simp [hchars]
  · rintro ⟨rest, rfl, rfl⟩
    simp [ofLocal, ofString, String.append_assoc]

namespace Registry

variable {registry : Registry} {id : FunctionId} {symbol : Symbol}

theorem underscore_mem_symbol (h : registry.symbolOf id = .ok symbol) : '_' ∈ symbol.toList := by
  simp [toList_symbolOf h]

/-- A symbol without the delimiter has no groups. -/
theorem paramTypes_eq_nil_of_notMem (h : registry.symbolOf id = .ok symbol)
    (hnotMem : registry.delimiter ∉ symbol.toList) : id.paramTypes = [] := by
  cases htypes : id.paramTypes with
  | nil => rfl
  | cons ty types => exact absurd (by simp [toList_symbolOf h, htypes, groups]) hnotMem

/-- A symbol made of identifier characters has no groups. -/
theorem paramTypes_eq_nil (hdelimiter : Name.isPart registry.delimiter = false)
    (h : registry.symbolOf id = .ok symbol) (hparts : ∀ c ∈ symbol.toList, Name.isPart c = true) :
    id.paramTypes = [] :=
  paramTypes_eq_nil_of_notMem h fun hmem => by simp [hparts _ hmem] at hdelimiter

end Registry

/-! ## Hidden names -/

namespace SourceUnit

theorem lower_check (h : unit.lower settings = .ok lowered) : settings.check = .ok () := by
  simp only [lower, Shared.ofUnit, bind_eq_ok, mapError_eq_ok] at h
  obtain ⟨_, ⟨_, hstart, _⟩, _⟩ := h
  exact (Registry.ofSettings_ok hstart).1

/-- The symbol of a lowered function is that of an identity with the types of its
parameters. -/
theorem lower_symbolOf (h : unit.lower settings = .ok lowered)
    (hcode : code ∈ lowered.functions) :
    ∃ (registry : Registry) (id : FunctionId), registry.delimiter = settings.delimiter
      ∧ registry.symbolOf id = .ok code.symbol ∧ id.paramTypes = code.params.map (·.ty) := by
  obtain ⟨shared, f, lowering, hshared, hlowers, rfl⟩ := lower_lowers h hcode
  refine ⟨shared.registry, f.id, hshared.delimiter,
    hshared.registered.symbolOf_of_resolve hlowers.symbol.1, ?_⟩
  exact (congrArg Signature.params hlowers.signature).symm

/-- A function that is not external has its code from a derivation. -/
theorem lower_derives (h : unit.lower settings = .ok lowered) (hcode : code ∈ lowered.functions)
    (hinternal : code.isExternal = false) :
    ∃ shared function lowering, LowersFunction shared function lowering
      ∧ lowering.function = code := by
  obtain ⟨shared, f, lowering, _, hlowers, rfl⟩ := lower_lowers h hcode
  rcases hlowers.derives with ⟨_, _, _, rfl⟩ | ⟨_, hderives⟩
  · simp at hinternal
  · exact ⟨shared, f, lowering, hderives, rfl⟩

theorem not_hides_symbol (h : unit.lower settings = .ok lowered)
    (hcode : code ∈ lowered.functions) {callee : LoweredFunction}
    (hcallee : callee ∈ lowered.functions) : ¬code.Hides callee.symbol := by
  intro hhides
  rcases List.mem_append.1 hhides with hlocal | hregister
  · -- the check at the end of lowering
    exact LoweredFunction.checkNames_ok (lower_checked h) code hcode _
      (List.mem_append_left _ hlocal) (List.mem_map_of_mem hcallee)
  · obtain ⟨row, _, hname⟩ := List.mem_map.1 hregister
    obtain ⟨registry, id, _, hsymbol, _⟩ := lower_symbolOf h hcallee
    exact row.register.underscore_notMem_name
      (hname ▸ Registry.underscore_mem_symbol hsymbol)

/-- Only a local hides a string constant. Locals are identifiers, so that a symbol with the
types of parameters in it does not start the name of one. -/
theorem hides_string_iff (h : unit.lower settings = .ok lowered)
    (hcode : code ∈ lowered.functions) (hinternal : code.isExternal = false)
    {owner : LoweredFunction} (howner : owner ∈ lowered.functions) (index : Nat) :
    code.Hides (Name.ofString owner.symbol index) ↔ code.SpellsString owner index := by
  obtain ⟨registry, id, hdelimiter, hsymbol, htypes⟩ := lower_symbolOf h howner
  have hunderscore := Registry.underscore_mem_symbol hsymbol
  constructor
  · intro hhides
    rcases List.mem_append.1 hhides with hlocal | hregister
    · obtain ⟨slot, hslot, hname⟩ := List.mem_map.1 hlocal
      obtain ⟨rest, hrest, hslotName⟩ := (Name.ofLocal_eq_ofString hunderscore).1 hname
      refine ⟨?_, rest, hrest, List.mem_map.2 ⟨slot, hslot, hslotName⟩⟩
      obtain ⟨shared, f, lowering, hderives, rfl⟩ := lower_derives h hcode hinternal
      have hparts : ∀ c ∈ owner.symbol.toList, Name.isPart c = true := by
        intro c hc
        refine Name.isPart_ofLocal (hderives.isIdentifier_slot slot hslot) ?_
        rw [hname, Name.toList_ofString]
        exact List.mem_append_left _ hc
      have hnone := Registry.paramTypes_eq_nil
        (hdelimiter ▸ Settings.isPart_delimiter (lower_check h)) hsymbol hparts
      simpa [htypes] using hnone
    · obtain ⟨row, _, hname⟩ := List.mem_map.1 hregister
      refine absurd ?_ row.register.underscore_notMem_name
      simp [hname, Name.toList_ofString]
  · rintro ⟨_, rest, hrest, hlocal⟩
    obtain ⟨slot, hslot, hname⟩ := List.mem_map.1 hlocal
    refine List.mem_append_left _ (List.mem_map.2 ⟨slot, hslot, ?_⟩)
    exact (Name.ofLocal_eq_ofString hunderscore).2 ⟨rest, hrest, hname⟩

/-- A call names a function of the unit by its symbol or by an alias. -/
theorem lower_calls (h : unit.lower settings = .ok lowered) (hcode : code ∈ lowered.functions)
    {dest : Option Register} {callee : Symbol} {args : List Register}
    (hop : .call dest callee args ∈ Op.nestedAll code.ops) :
    callee ∈ lowered.functions.map (·.symbol) ∨ (lowered.aliases.find? callee).isSome := by
  obtain ⟨shared, lowerings, hshared, hlower, hfunctions, haliases⟩ := lower_aliases h
  have hfound : ∃ signature, lowered.signature? callee = some signature := by
    rw [hfunctions] at hcode
    obtain ⟨lowering, hmem, rfl⟩ := List.mem_map.1 hcode
    obtain ⟨f, _, hlowers⟩ := Shared.exists_lowers hlower hmem
    obtain ⟨signature, hcalls, _⟩ := hlowers.typed _ hop
    exact ⟨signature, hshared.signature?_of_calls hlower hfunctions haliases hmem hcalls⟩
  obtain ⟨signature, hsignature⟩ := hfound
  rw [LoweredUnit.signature?, Option.or_eq_some_iff] at hsignature
  rcases hsignature with hown | ⟨_, halias⟩
  · obtain ⟨target, htarget, _⟩ := Option.map_eq_some_iff.1 hown
    have hsymbol : target.symbol = callee := by simpa using List.find?_some htarget
    exact .inl (List.mem_map.2 ⟨target, List.mem_of_find?_eq_some htarget, hsymbol⟩)
  · exact .inr (by simp [halias])

theorem lower_strings (h : unit.lower settings = .ok lowered) (hcode : code ∈ lowered.functions)
    {routine : Routine} {index : Nat}
    (hop : .print routine (.string index) ∈ Op.nestedAll code.ops) :
    index < code.strings.length := by
  obtain ⟨shared, f, lowering, _, hlowers, rfl⟩ := lower_lowers h hcode
  have hprinted : index ∈ Op.strings lowering.function.ops := List.mem_filterMap.2 ⟨_, hop, rfl⟩
  rw [hlowers.strings_eq] at hprinted
  exact List.mem_range.1 hprinted

/-- A reference that the block hides is an alias, or a string constant of the function itself
that one of its locals spells. -/
theorem hidden_reference (h : unit.lower settings = .ok lowered)
    (hcode : code ∈ lowered.functions) (hinternal : code.isExternal = false) {name : String}
    (hname : name ∈ code.references) (hhides : code.Hides name) :
    (lowered.aliases.find? name).isSome
      ∨ ∃ index < code.strings.length, name = Name.ofString code.symbol index
        ∧ code.SpellsString code index := by
  obtain ⟨op, hop, href⟩ := List.mem_filterMap.1 hname
  unfold LoweredFunction.reference? at href
  split at href
  · -- a call
    obtain rfl := Option.some.inj href
    rcases lower_calls h hcode hop with hsymbol | halias
    · obtain ⟨target, htarget, rfl⟩ := List.mem_map.1 hsymbol
      exact absurd hhides (not_hides_symbol h hcode htarget)
    · exact .inl halias
  · -- a string constant
    obtain rfl := Option.some.inj href
    refine .inr ⟨_, lower_strings h hcode hop, rfl, ?_⟩
    exact (hides_string_iff h hcode hinternal hcode _).1 hhides
  · simp at href

/-- What the block of a definition hides. Its names are distinct, and none of them is the
symbol of a function. A string constant is hidden if and only if a local spells it; without
such a local, and without aliases, all references of the body mean what the file declares. -/
theorem hides_iff_spellsString (h : unit.lower settings = .ok lowered)
    (hcode : code ∈ lowered.functions) (hinternal : code.isExternal = false) :
    code.blockNames.Nodup
      ∧ (∀ output, code.scopeNames output ⊆ code.blockNames)
      ∧ (∀ callee ∈ lowered.functions, ¬code.Hides callee.symbol)
      ∧ (∀ owner ∈ lowered.functions, ∀ index,
        code.Hides (Name.ofString owner.symbol index) ↔ code.SpellsString owner index)
      ∧ ∀ name ∈ code.references, code.Hides name → (lowered.aliases.find? name).isSome
        ∨ ∃ index < code.strings.length, name = Name.ofString code.symbol index
          ∧ code.SpellsString code index := by
  refine ⟨?_, ?_, fun callee hcallee => not_hides_symbol h hcode hcallee,
    fun owner howner index => hides_string_iff h hcode hinternal howner index,
    fun name hname hhides => hidden_reference h hcode hinternal hname hhides⟩
  · obtain ⟨shared, f, lowering, hderives, rfl⟩ := lower_derives h hcode hinternal
    exact LoweredFunction.nodup_blockNames hderives.slots.1 hderives.tablesExact.numbered
  · obtain ⟨shared, f, lowering, hderives, rfl⟩ := lower_derives h hcode hinternal
    exact fun output => LoweredFunction.scopeNames_subset output hderives.slots.2

end SourceUnit

/-- The first function has a local that is spelled like its string constant. -/
def Sample.spellsString : SourceUnit where
  name := "spells"
  functions :=
    [{ path := ""
       moduleName := "v"
       name := "f"
       body :=
        [.declare "f_str0" .u8 (some (.literal ⟨1, .u8⟩)),
          .print (.text "hi"),
          .eval (.call (.symbol "m_g$u8") [.var "f_str0"])] },
      { path := ""
        moduleName := "m"
        name := "g"
        params := [⟨"n", .u8⟩]
        body := [.print (.value (.var "n")), .print (.text "\n")] }]

namespace SourceUnit

theorem lower_spellsString :
    ∃ lowered code, Sample.spellsString.lower {} = .ok lowered ∧ code ∈ lowered.functions
      ∧ code.isExternal = false ∧ code.blockNames = ["v_f_str0", "r1", "r2", "r3", "r4"]
      ∧ code.references = ["v_f_str0", "m_g$u8"]
      ∧ lowered.fileNames = ["v_f", "m_g$u8", "v_f_str0", "m_g$u8_str0"] := by
  have hlower : (Sample.spellsString.lower {}).toOption.map
      (fun lowered => (lowered.functions.head?.map fun code =>
        (code.isExternal, code.blockNames, code.references), lowered.fileNames))
      = some (some (false, ["v_f_str0", "r1", "r2", "r3", "r4"], ["v_f_str0", "m_g$u8"]),
        ["v_f", "m_g$u8", "v_f_str0", "m_g$u8_str0"]) := by
    decide +kernel
  cases h : Sample.spellsString.lower {} with
  | error cause => simp [h, Except.toOption] at hlower
  | ok lowered =>
    simp only [h, Except.toOption, Option.map_some, Option.some.injEq, Prod.mk.injEq,
      Option.map_eq_some_iff] at hlower
    obtain ⟨⟨code, hhead, hinternal, hblock, hreferences⟩, hfile⟩ := hlower
    exact ⟨lowered, code, rfl, List.mem_of_head? hhead, hinternal, hblock, hreferences, hfile⟩

theorem hides_iff_spellsString_sample :
    ∃ lowered code, Sample.spellsString.lower {} = .ok lowered ∧ code ∈ lowered.functions
      ∧ code.isExternal = false ∧ code.references = ["v_f_str0", "m_g$u8"]
      ∧ code.blockNames.Nodup
      ∧ (∀ output, code.scopeNames output ⊆ code.blockNames)
      ∧ (∀ callee ∈ lowered.functions, ¬code.Hides callee.symbol)
      ∧ (∀ owner ∈ lowered.functions, ∀ index,
        code.Hides (Name.ofString owner.symbol index) ↔ code.SpellsString owner index)
      ∧ ∀ name ∈ code.references, code.Hides name → (lowered.aliases.find? name).isSome
        ∨ ∃ index < code.strings.length, name = Name.ofString code.symbol index
          ∧ code.SpellsString code index := by
  obtain ⟨lowered, code, h, hcode, hinternal, _, hreferences, _⟩ := lower_spellsString
  exact ⟨lowered, code, h, hcode, hinternal, hreferences,
    hides_iff_spellsString h hcode hinternal⟩

/-- In the sample the body refers to a name of the file that its own block hides. -/
theorem hidden_string_constant :
    ∃ lowered code, Sample.spellsString.lower {} = .ok lowered ∧ code ∈ lowered.functions
      ∧ code.isExternal = false
      ∧ ∃ name ∈ code.blockNames, name ∈ lowered.fileNames ∧ name ∈ code.references := by
  obtain ⟨lowered, code, h, hcode, hinternal, hblock, hreferences, hfile⟩ := lower_spellsString
  refine ⟨lowered, code, h, hcode, hinternal, "v_f_str0", ?_, ?_, ?_⟩
  · simp [hblock]
  · simp [hfile]
  · simp [hreferences]

end SourceUnit

end ScalarC
