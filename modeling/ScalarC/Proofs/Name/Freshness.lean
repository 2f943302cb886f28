import ScalarC.Proofs.Lowering.Aliases

/-!
# Fresh aliases

An alias gets a prototype of its own, so its name has to be new in the file. It is another
spelling of a registered symbol, with underscores for the hyphens and dots of the path and
the module, and it is never itself the symbol of a function. Most reserved names are out of
its reach: they have no underscore that could stand for a hyphen, or the symbol would be
reserved as well. The exceptions are listed here. Names of string constants and of locals are
not looked at when an alias is recorded, so a call can spell those too.
-/

namespace ScalarC

namespace Name

/-! ## Keys -/

/-- How a character of a symbol counts in its key. -/
def keyChar (delimiter c : Char) : Char :=
  if isKept c && c != delimiter then '_' else c

theorem toList_legacyKey (delimiter : Char) (symbol : String) :
    (legacyKey delimiter symbol).toList = symbol.toList.map (keyChar delimiter) := by
  simp [legacyKey, keyChar]

variable {delimiter c : Char} {chars word : List Char}

theorem isKept_of_isPart (hc : isPart c = true) : isKept c = false := by
  by_contra hkept
  simp only [Bool.not_eq_false, isKept, Bool.or_eq_true, beq_iff_eq] at hkept
  rcases hkept with rfl | rfl
  · exact absurd hc (by decide)
  · exact absurd hc (by decide)

theorem keyChar_of_isPart (hc : isPart c = true) : keyChar delimiter c = c := by
  simp [keyChar, isKept_of_isPart hc]

/-- Only underscores in a key can stand for other characters. -/
theorem eq_of_map_keyChar (h : chars.map (keyChar delimiter) = word) (hword : '_' ∉ word) :
    chars = word := by
  have hsame : ∀ c ∈ chars, keyChar delimiter c = c := by
    intro c hc
    have hne : keyChar delimiter c ≠ '_' := by
      intro heq
      exact hword (h ▸ heq ▸ List.mem_map_of_mem hc)
    unfold keyChar at hne ⊢
    split <;> simp_all
  rw [← h, List.map_congr_left hsame, List.map_id']

theorem map_keyChar_of_isPart (h : ∀ c ∈ word, isPart c = true) :
    word.map (keyChar delimiter) = word := by
  rw [List.map_congr_left fun c hc => keyChar_of_isPart (h c hc), List.map_id']

variable {target name head : String}

/-- Two spellings of one key start in the same way, up to the first underscore. -/
theorem startsWith_of_key (hkey : legacyKey delimiter target = legacyKey delimiter name)
    (hhead : head.toList.all (fun c => isPart c && c != '_') = true)
    (h : startsWith head name = true) : startsWith head target = true := by
  simp only [List.all_eq_true, Bool.and_eq_true, bne_iff_ne] at hhead
  have hparts : ∀ c ∈ head.toList, isPart c = true := fun c hc => (hhead c hc).1
  have hunderscore : '_' ∉ head.toList := fun hmem => (hhead '_' hmem).2 rfl
  obtain ⟨rest, hrest⟩ := List.isPrefixOf_iff_prefix.1 h
  have hchars := congrArg String.toList hkey
  rw [toList_legacyKey, toList_legacyKey, ← hrest, List.map_append,
    map_keyChar_of_isPart hparts] at hchars
  obtain ⟨first, last, htarget, hfirst, _⟩ := List.map_eq_append_iff.1 hchars
  rw [eq_of_map_keyChar hfirst hunderscore] at htarget
  exact List.isPrefixOf_iff_prefix.2 ⟨last, htarget.symm⟩

/-- They also end in the same way, up to a character that counts as the last underscore. -/
theorem exists_append_of_key (hkey : legacyKey delimiter target = legacyKey delimiter name)
    (hparts : ∀ c ∈ word, isPart c = true) (hword : '_' ∉ word) {before : List Char}
    (h : name.toList = before ++ '_' :: word) :
    ∃ first c, keyChar delimiter c = '_' ∧ target.toList = first ++ c :: word := by
  have hchars := congrArg String.toList hkey
  rw [toList_legacyKey, toList_legacyKey, h, List.map_append, List.map_cons,
    map_keyChar_of_isPart hparts] at hchars
  obtain ⟨first, last, htarget, _, hlast⟩ := List.map_eq_append_iff.1 hchars
  obtain ⟨c, rest, rfl, hc, hrest⟩ := List.map_eq_cons_iff.1 hlast
  rw [eq_of_map_keyChar hrest hword] at htarget
  exact ⟨first, c, hc.trans (keyChar_of_isPart (by decide)), htarget⟩

end Name

theorem Scalar.isDigit_getLast?_name (ty : Scalar) {c : Char}
    (h : ty.name.toList.getLast? = some c) : c.isDigit = true := by
  have hall : ∀ ty ∈ all, ty.name.toList.getLast?.all Char.isDigit = true := by decide
  simpa [h] using hall ty (mem_all ty)

namespace Registry

open Name

variable {registry : Registry} {id : FunctionId} {target : Symbol} {word : List Char}

/-- A symbol that does not end with a digit has no groups. -/
theorem paramTypes_eq_nil_of_getLast? (h : registry.symbolOf id = .ok target) {c : Char}
    (hlast : target.toList.getLast? = some c) (hc : c.isDigit = false) : id.paramTypes = [] := by
  rcases List.eq_nil_or_concat id.paramTypes with hnil | ⟨types, ty, htypes⟩
  · exact hnil
  · have hne : ty.name.toList ≠ [] := by
      have hall : ∀ ty ∈ Scalar.all, ty.name.toList.isEmpty = false := by decide
      simpa using hall ty (Scalar.mem_all ty)
    rw [toList_symbolOf h, htypes, List.concat_eq_append, groups_concat] at hlast
    rw [← List.append_assoc, List.getLast?_append_of_ne_nil _ (List.cons_ne_nil _ _),
      List.getLast?_cons_of_ne_nil hne] at hlast
    simp [ty.isDigit_getLast?_name hlast] at hc

/-- Behind the last character that counts as an underscore, a symbol without groups has part
of its name. So that character is an underscore. -/
theorem eq_underscore_of_key (h : registry.symbolOf id = .ok target) (htypes : id.paramTypes = [])
    (hword : '_' ∉ word) {delimiter c : Char} {first : List Char}
    (hc : keyChar delimiter c = '_') (htarget : target.toList = first ++ c :: word) : c = '_' := by
  have hname := (symbolOf_eq_ok.1 h).2.1
  rw [toList_symbolOf h, htypes, groups, List.flatMap_nil, List.append_nil] at htarget
  rcases List.append_eq_append_iff.1 htarget with ⟨middle, _, hright⟩ | ⟨middle, _, hright⟩
  · cases middle with
    | nil => exact (List.cons.inj hright).1.symm
    | cons d middle =>
      -- the character stands in the name
      obtain ⟨_, hsplit⟩ := List.cons.inj hright
      have hpart : isPart c = true := isPart_of_isIdentifier hname (by simp [hsplit])
      exact (keyChar_of_isPart hpart).symm.trans hc
  · cases middle with
    | nil => exact (List.cons.inj hright).1
    | cons d middle =>
      -- the underscore before the name would stand behind the character
      obtain ⟨_, hsplit⟩ := List.cons.inj hright
      simp [hsplit] at hword

/-- A symbol has the ending of `<stdint.h>` that another spelling of it has. -/
theorem endsWith_of_key (h : registry.symbolOf id = .ok target) {delimiter : Char} {name : String}
    (hkey : legacyKey delimiter target = legacyKey delimiter name) {tail : String}
    (htail : tail ∈ ["_t", "_MAX", "_MIN", "_C"]) (hends : endsWith tail name = true) :
    endsWith tail target = true := by
  have hall : ∀ tail ∈ ["_t", "_MAX", "_MIN", "_C"], tail.toList = '_' :: tail.toList.tail
      ∧ tail.toList.tail.all isPart = true ∧ '_' ∉ tail.toList.tail
      ∧ tail.toList.tail.getLast?.any (!·.isDigit) = true := by decide
  obtain ⟨hword, hparts, hunderscore, hletters⟩ := hall tail htail
  obtain ⟨last, hlast, hletter⟩ := (Option.any_eq_true _ _).1 hletters
  obtain ⟨before, hbefore⟩ := List.isSuffixOf_iff_suffix.1 hends
  rw [hword] at hbefore
  obtain ⟨first, c, hc, htarget⟩ :=
    exists_append_of_key hkey (List.all_eq_true.1 hparts) hunderscore hbefore.symm
  have hgetLast : target.toList.getLast? = some last := by
    have hne := List.ne_nil_of_mem (List.mem_of_getLast? hlast)
    rw [htarget, List.getLast?_append_of_ne_nil _ (List.cons_ne_nil _ _),
      List.getLast?_cons_of_ne_nil hne, hlast]
  have htypes := paramTypes_eq_nil_of_getLast? h hgetLast (by simpa using hletter)
  obtain rfl := eq_underscore_of_key h htypes hunderscore hc htarget
  refine List.isSuffixOf_iff_suffix.2 ⟨first, ?_⟩
  rw [hword, htarget]

/-- Another spelling of a symbol, made of identifier characters, has an underscore before the
one that separates the name. -/
theorem exists_split_of_key (h : registry.symbolOf id = .ok target)
    (hdelimiter : isPart registry.delimiter = false) {name : String}
    (hkey : legacyKey registry.delimiter target = legacyKey registry.delimiter name)
    (hne : target ≠ name) (hparts : ∀ c ∈ name.toList, isPart c = true) :
    ∃ before, '_' ∈ before ∧ name.toList = before ++ '_' :: id.name.toList := by
  have hchars := congrArg String.toList hkey
  rw [toList_legacyKey, toList_legacyKey, map_keyChar_of_isPart hparts] at hchars
  have hnotMem : registry.delimiter ∉ target.toList := by
    intro hmem
    -- the delimiter is its own key
    have hkeyed := List.mem_map_of_mem (f := keyChar registry.delimiter) hmem
    rw [hchars, show keyChar registry.delimiter registry.delimiter = registry.delimiter by
      simp [keyChar]] at hkeyed
    simp [hparts _ hkeyed] at hdelimiter
  have htypes := paramTypes_eq_nil_of_notMem h hnotMem
  have htarget := toList_symbolOf h
  rw [htypes, groups, List.flatMap_nil, List.append_nil] at htarget
  have hname := (symbolOf_eq_ok.1 h).2.1
  rw [htarget, List.map_append, List.map_cons, keyChar_of_isPart (by decide),
    map_keyChar_of_isPart fun c hc => isPart_of_isIdentifier hname hc] at hchars
  refine ⟨_, ?_, hchars.symm⟩
  -- a stem that is its own key would be spelled in the same way
  by_contra hunderscore
  rw [← eq_of_map_keyChar rfl hunderscore, ← htarget] at hchars
  exact hne (String.toList_injective hchars)

end Registry

namespace Name

/-- The reserved names that another spelling of a symbol can have: a print routine, the macros of
the fixed-point types, and the limits of `sig_atomic_t`. -/
def isExposed (name : String) : Bool :=
  name == Routine.u8Decimal.name
    || (Scalar.all.filter Scalar.isFixedPoint).any (·.shiftName == name)
    || (startsWith "SIG_ATOMIC" name && ["_MAX", "_MIN", "_C"].any (endsWith · name))

theorem isReserved_of_isExposed {name : String} (h : isExposed name = true) :
    isReserved name = true := by
  simp only [isExposed, Bool.or_eq_true, beq_iff_eq] at h
  rcases h with (rfl | h) | h
  · decide
  · simp [isReserved, h]
  · have hlimit : isStdintLimit name = true := by
      simp only [Bool.and_eq_true] at h
      simp [isStdintLimit, h]
    simp [isReserved, hlimit]

theorem isPart_of_mem_listed {name : String} (h : name ∈ listed) :
    ∀ c ∈ name.toList, isPart c = true := by
  have hall : listed.all (·.toList.all isPart) = true := by decide +kernel
  exact List.all_eq_true.1 (List.all_eq_true.1 hall name h)

/-- A listed name with an underscore before one that an identifier follows is exposed. -/
theorem isExposed_of_mem_listed {name identifier : String} (h : name ∈ listed)
    (hidentifier : isIdentifier identifier = true) {before : List Char} (hbefore : '_' ∈ before)
    (hsplit : name.toList = before ++ '_' :: identifier.toList) : isExposed name = true := by
  have hall : listed.all (fun name => name.toList.tails.all fun tail =>
      !(tail.head? == some '_' && decide (tail.count '_' < name.toList.count '_')
        && isIdentifier (String.ofList tail.tail)) || isExposed name) = true := by
    decide +kernel
  have htail : '_' :: identifier.toList ∈ name.toList.tails :=
    (List.mem_tails _ _).2 ⟨before, hsplit.symm⟩
  have hcount : identifier.toList.count '_' + 1 < name.toList.count '_' := by
    rw [hsplit, List.count_append, List.count_cons_self]
    have hpos := List.count_pos_iff.2 hbefore
    omega
  have hname := List.all_eq_true.1 (List.all_eq_true.1 hall name h) _ htail
  simpa [hidentifier, hcount] using hname

end Name

namespace Registry

open Name

variable {registry : Registry} {id : FunctionId} {target : Symbol} {name : String}

/-- Another spelling of a symbol that is not reserved is reserved only if it is exposed. -/
theorem isReserved_iff_isExposed (h : registry.symbolOf id = .ok target)
    (hdelimiter : isPart registry.delimiter = false) (hfree : isReserved target = false)
    (hkey : legacyKey registry.delimiter target = legacyKey registry.delimiter name)
    (hne : target ≠ name) : isReserved name = true ↔ isExposed name = true := by
  refine ⟨fun hreserved => ?_, isReserved_of_isExposed⟩
  rcases isReserved_iff.1 hreserved with hlisted | htype | hlimit
  · obtain ⟨before, hbefore, hsplit⟩ :=
      exists_split_of_key h hdelimiter hkey hne (isPart_of_mem_listed hlisted)
    exact isExposed_of_mem_listed hlisted (symbolOf_eq_ok.1 h).2.1 hbefore hsplit
  · simp only [isStdintType, Bool.and_eq_true, Bool.or_eq_true] at htype
    have hstarts : startsWith "int" target = true ∨ startsWith "uint" target = true :=
      htype.1.imp (startsWith_of_key hkey (by decide)) (startsWith_of_key hkey (by decide))
    have hends := endsWith_of_key h hkey List.mem_cons_self htype.2
    have hsame : isStdintType target = true := by
      simp only [isStdintType, Bool.and_eq_true, Bool.or_eq_true]
      exact ⟨hstarts, hends⟩
    simp [isReserved_iff.2 (.inr (.inl hsame))] at hfree
  · simp only [isStdintLimit, Bool.and_eq_true, List.any_eq_true] at hlimit
    obtain ⟨⟨head, hhead, hstarts⟩, tail, htail, hends⟩ := hlimit
    by_cases hsig : head = "SIG_ATOMIC"
    · subst hsig
      have hsome : ["_MAX", "_MIN", "_C"].any (endsWith · name) = true :=
        List.any_eq_true.2 ⟨tail, htail, hends⟩
      simp [isExposed, hstarts, hsome]
    · -- the other heads have no underscore
      have hall : ∀ head ∈ ["INT", "UINT", "SIZE", "PTRDIFF", "WCHAR", "WINT", "SIG_ATOMIC"],
          head ≠ "SIG_ATOMIC" → head.toList.all (fun c => isPart c && c != '_') = true := by decide
      have hstarts' := startsWith_of_key hkey (hall head hhead hsig) hstarts
      have hends' := endsWith_of_key h hkey (List.mem_cons_of_mem _ htail) hends
      have hsame : isStdintLimit target = true := by
        simp only [isStdintLimit, Bool.and_eq_true, List.any_eq_true]
        exact ⟨⟨head, hhead, hstarts'⟩, tail, htail, hends'⟩
      simp [isReserved_iff.2 (.inr (.inr hsame))] at hfree

end Registry

/-! ## Units -/

namespace LoweredUnit

/-- The C names of the string constants. -/
def stringNames (unit : LoweredUnit) : List String :=
  unit.stringConstants.map fun constant => Name.ofString constant.1 constant.2

/-- The C names of the parameters and locals of all functions. -/
def localNames (unit : LoweredUnit) : List String :=
  unit.functions.flatMap fun code =>
    code.params.map (Name.ofLocal ·.name) ++ code.locals.map (Name.ofLocal ·.name)

/-- Nothing else has the name. -/
structure Fresh (unit : LoweredUnit) (name : String) : Prop where
  unreserved : Name.isReserved name = false
  symbol : name ∉ unit.functions.map (·.symbol)
  string : name ∉ unit.stringNames
  slot : name ∉ unit.localNames

end LoweredUnit

namespace SourceUnit

/-- Which aliases are fresh. The aliases are the symbols that the functions call, without their own
symbols, and each is another spelling of one of those. An alias is fresh if and only if it is
no exposed reserved name, and neither a string constant nor a local is spelled like it. -/
theorem alias_fresh_iff {unit : SourceUnit} {settings : Settings} {lowered : LoweredUnit}
    (h : unit.lower settings = .ok lowered) (name : String) :
    ((lowered.aliases.find? name).isSome ↔
      name ∈ lowered.callees ∧ name ∉ lowered.functions.map (·.symbol))
    ∧ ((lowered.aliases.find? name).isSome →
      (∃ code ∈ lowered.functions, code.symbol ≠ name ∧
        Name.legacyKey settings.delimiter code.symbol = Name.legacyKey settings.delimiter name)
      ∧ (lowered.Fresh name ↔ Name.isExposed name = false
        ∧ name ∉ lowered.stringNames ∧ name ∉ lowered.localNames)) := by
  refine ⟨lower_alias_iff h, fun halias => ⟨lower_alias_target h halias, ?_⟩⟩
  obtain ⟨code, hcode, hne, hkey⟩ := lower_alias_target h halias
  obtain ⟨registry, id, hdelimiter, hsymbol, _⟩ := lower_symbolOf h hcode
  rw [← hdelimiter] at hkey
  have hpart : Name.isPart registry.delimiter = false :=
    hdelimiter ▸ Settings.isPart_delimiter (lower_check h)
  have hfree : Name.isReserved code.symbol = false :=
    (nodup_fileNames h).2 _ (List.mem_append_left _ (List.mem_map_of_mem hcode))
  have hunreserved : Name.isReserved name = false ↔ Name.isExposed name = false := by
    rw [← Bool.not_eq_true, ← Bool.not_eq_true,
      Registry.isReserved_iff_isExposed hsymbol hpart hfree hkey hne]
  constructor
  · intro hfresh
    exact ⟨hunreserved.1 hfresh.unreserved, hfresh.string, hfresh.slot⟩
  · rintro ⟨hexposed, hstring, hslot⟩
    exact ⟨hunreserved.2 hexposed, ((lower_alias_iff h).1 halias).2, hstring, hslot⟩

end SourceUnit

namespace Sample

/-- Calls the four functions before it in another spelling than they are declared in. The first
of these spellings is a print routine, the second is its own string constant, the third its
own local, and the last one is new. -/
def hyphens : SourceUnit where
  name := "hyphens"
  functions :=
    [{ path := "", moduleName := "print-u8", name := "decimal" },
      { path := "", moduleName := "m-f", name := "str0" },
      { path := "", moduleName := "v-m", name := "f" },
      { path := "", moduleName := "lib-m", name := "g" },
      { path := ""
        moduleName := "m"
        name := "f"
        body :=
          [.declare "m_f" .u8 (some (.literal ⟨1, .u8⟩)),
            .print (.text "hi"),
            .eval (.call (.symbol "print_u8_decimal") []),
            .eval (.call (.symbol "m_f_str0") []),
            .eval (.call (.symbol "v_m_f") []),
            .eval (.call (.symbol "lib_m_g") [])] }]

end Sample

namespace SourceUnit

theorem lower_hyphens :
    ∃ lowered, Sample.hyphens.lower .legacy = .ok lowered
      ∧ lowered.functions.map (·.symbol)
        = ["print-u8_decimal", "m-f_str0", "v-m_f", "lib-m_g", "m_f"]
      ∧ lowered.aliases.entries.map (·.1) = ["lib_m_g", "m_f_str0", "print_u8_decimal", "v_m_f"]
      ∧ lowered.stringNames = ["m_f_str0"] ∧ lowered.localNames = ["v_m_f"] := by
  have hlower : (Sample.hyphens.lower .legacy).toOption.map
      (fun lowered => (lowered.functions.map (·.symbol), lowered.aliases.entries.map (·.1),
        lowered.stringNames, lowered.localNames))
      = some (["print-u8_decimal", "m-f_str0", "v-m_f", "lib-m_g", "m_f"],
        ["lib_m_g", "m_f_str0", "print_u8_decimal", "v_m_f"], ["m_f_str0"], ["v_m_f"]) := by
    decide +kernel
  cases h : Sample.hyphens.lower .legacy with
  | error abort => simp [h, Except.toOption] at hlower
  | ok lowered =>
    simp only [h, Except.toOption, Option.map_some, Option.some.injEq, Prod.mk.injEq] at hlower
    exact ⟨lowered, rfl, hlower⟩

/-- The last alias of the sample is fresh. -/
theorem alias_fresh_iff_hyphens :
    ∃ lowered, Sample.hyphens.lower .legacy = .ok lowered
      ∧ (lowered.aliases.find? "lib_m_g").isSome
      ∧ "lib_m_g" ∈ lowered.callees
      ∧ (∃ code ∈ lowered.functions, code.symbol ≠ "lib_m_g" ∧
        Name.legacyKey '$' code.symbol = Name.legacyKey '$' "lib_m_g")
      ∧ lowered.Fresh "lib_m_g" := by
  obtain ⟨lowered, h, _, haliases, hstrings, hlocals⟩ := lower_hyphens
  have halias : (lowered.aliases.find? "lib_m_g").isSome := by
    simp [NameTable.isSome_find?, haliases]
  obtain ⟨hcalled, htarget⟩ := alias_fresh_iff h "lib_m_g"
  obtain ⟨hother, hfresh⟩ := htarget halias
  refine ⟨lowered, h, halias, (hcalled.1 halias).1, hother, hfresh.2 ⟨by decide +kernel, ?_, ?_⟩⟩
  · simp [hstrings]
  · simp [hlocals]

/-- The other aliases of the sample are a reserved name, a string constant and a local. -/
theorem alias_not_fresh :
    ∃ lowered, Sample.hyphens.lower .legacy = .ok lowered
      ∧ (∃ name, (lowered.aliases.find? name).isSome ∧ Name.isReserved name = true)
      ∧ (∃ name, (lowered.aliases.find? name).isSome ∧ name ∈ lowered.stringNames)
      ∧ (∃ name, (lowered.aliases.find? name).isSome ∧ name ∈ lowered.localNames) := by
  obtain ⟨lowered, h, _, haliases, hstrings, hlocals⟩ := lower_hyphens
  refine ⟨lowered, h, ⟨"print_u8_decimal", ?_, by decide +kernel⟩, ⟨"m_f_str0", ?_, ?_⟩,
    ⟨"v_m_f", ?_, ?_⟩⟩
  · simp [NameTable.isSome_find?, haliases]
  · simp [NameTable.isSome_find?, haliases]
  · simp [hstrings]
  · simp [NameTable.isSome_find?, haliases]
  · simp [hlocals]

end SourceUnit

end ScalarC
