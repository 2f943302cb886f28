import Mathlib.Data.List.Forall2
import ScalarC.Proofs.Name.Freshness

/-!
# Ambiguous aliases

Registration keeps symbols apart that differ in hyphens, dots and underscores, but a call in
legacy spelling may put each of these for the others. So a call can agree with the symbols of
several functions, and it then reaches the first of them in symbol order, without an error.
This happens for some call if and only if two symbols agree whose common form a call can be
written in, which is to say that it starts like a name.
-/

namespace ScalarC

namespace Name

/-! ## Agreement of spellings -/

/-- Underscores, and what a call may put for them. -/
def isJoint (delimiter c : Char) : Bool :=
  c == '_' || (isKept c && c != delimiter)

/-- Two texts are equal up to underscores and the characters that may be put for them. -/
def Agree (delimiter : Char) (a b : String) : Prop :=
  List.Forall₂ (fun c d => c = d ∨ isJoint delimiter c ∧ isJoint delimiter d) a.toList b.toList

/-- Whether a text starts like a name, up to what may be put for an underscore. -/
def startsLikeName (delimiter : Char) (text : String) : Bool :=
  text.toList.head?.any fun c => isStart c || isJoint delimiter c

variable {delimiter c d : Char} {a b text : String}

theorem keyChar_eq (delimiter c : Char) :
    keyChar delimiter c = if isJoint delimiter c then '_' else c := by
  by_cases hc : c = '_'
  · subst hc
    simp [keyChar, isJoint]
  · simp [keyChar, isJoint, hc]

theorem keyChar_eq_keyChar :
    keyChar delimiter c = keyChar delimiter d ↔
      c = d ∨ isJoint delimiter c ∧ isJoint delimiter d := by
  have hunderscore : isJoint delimiter '_' = true := by simp [isJoint]
  rw [keyChar_eq, keyChar_eq]
  by_cases hc : isJoint delimiter c <;> by_cases hd : isJoint delimiter d
  · simp [hc, hd]
  · have hne : '_' ≠ d := fun h => hd (h ▸ hunderscore)
    have hne' : c ≠ d := fun h => hd (h ▸ hc)
    simp [hc, hd, hne, hne']
  · have hne : c ≠ '_' := fun h => hc (h ▸ hunderscore)
    have hne' : c ≠ d := fun h => hc (h ▸ hd)
    simp [hc, hd, hne, hne']
  · simp [hc, hd]

/-- Texts agree if they have the same key. -/
theorem agree_iff : Agree delimiter a b ↔ legacyKey delimiter a = legacyKey delimiter b := by
  rw [← String.toList_inj, toList_legacyKey, toList_legacyKey, ← List.forall₂_eq_eq_eq,
    List.forall₂_map_left_iff, List.forall₂_map_right_iff]
  simp only [keyChar_eq_keyChar, Agree]

theorem isStart_or_isJoint :
    (isStart c || isJoint delimiter c) = isStart (keyChar delimiter c) := by
  rw [keyChar_eq]
  by_cases hc : isJoint delimiter c
  · simp [hc, isStart]
  · simp [hc]

/-- Starting like a name is a matter of the key. -/
theorem startsLikeName_eq (delimiter : Char) (text : String) :
    startsLikeName delimiter text = (legacyKey delimiter text).toList.head?.any isStart := by
  rw [toList_legacyKey, List.head?_map, Option.any_map, startsLikeName]
  simp only [isStart_or_isJoint]

theorem startsLikeName_of_isLegacySpelling (h : isLegacySpelling delimiter text = true) :
    startsLikeName delimiter text = true := by
  unfold isLegacySpelling isSpelledWith at h
  unfold startsLikeName
  split at h
  · simp at h
  · rename_i first rest heq
    simp only [Bool.and_eq_true] at h
    simp [heq, h.1]

/-! ## A spelling for calls only -/

/-- A kept character other than the delimiter. -/
def mark (delimiter : Char) : Char := if delimiter = '-' then '.' else '-'

theorem isKept_mark (delimiter : Char) : isKept (mark delimiter) = true := by
  unfold mark
  split <;> decide

theorem mark_ne_delimiter (delimiter : Char) : mark delimiter ≠ delimiter := by
  unfold mark
  split
  · rename_i h
    rw [h]
    decide
  · rename_i h
    exact Ne.symm h

theorem isJoint_mark (delimiter : Char) : isJoint delimiter (mark delimiter) = true := by
  simp [isJoint, isKept_mark, mark_ne_delimiter]

/-- The marked form of a text: a mark for everything that counts as an underscore, except at
the start. -/
def marked (delimiter : Char) (text : String) : String :=
  match text.toList with
  | [] => ""
  | first :: rest => String.ofList (keyChar delimiter first
      :: rest.map fun c => if isJoint delimiter c then mark delimiter else c)

theorem agree_marked (delimiter : Char) (text : String) :
    Agree delimiter text (marked delimiter text) := by
  unfold Agree marked
  cases htext : text.toList with
  | nil => exact .nil
  | cons first rest =>
    rw [String.toList_ofList]
    refine .cons ?_ (List.forall₂_map_right_iff.2 (List.forall₂_same.2 fun c _ => ?_))
    · rw [keyChar_eq]
      split
      · rename_i hjoint
        exact .inr ⟨hjoint, by simp [isJoint]⟩
      · exact .inl rfl
    · split
      · rename_i hjoint
        exact .inr ⟨hjoint, isJoint_mark delimiter⟩
      · exact .inl rfl

theorem underscore_notMem_tail_marked (delimiter : Char) (text : String) :
    '_' ∉ (marked delimiter text).toList.tail := by
  unfold marked
  split
  · simp
  · rw [String.toList_ofList, List.tail_cons, List.mem_map]
    rintro ⟨c, _, hc⟩
    split at hc
    · exact absurd (hc ▸ isKept_mark delimiter) (by decide)
    · rename_i hjoint
      exact hjoint (by simp [hc, isJoint])

/-- The characters of symbols in legacy spelling. -/
def isLegacyChar (delimiter c : Char) : Bool :=
  isPart c || c == delimiter || isKept c

/-- A call can be written in the marked form of a symbol that starts like a name. -/
theorem isLegacySpelling_marked
    (hchars : ∀ c ∈ text.toList, isLegacyChar delimiter c = true)
    (hstarts : startsLikeName delimiter text = true) :
    isLegacySpelling delimiter (marked delimiter text) = true := by
  unfold startsLikeName at hstarts
  unfold isLegacySpelling isSpelledWith marked
  cases htext : text.toList with
  | nil => simp [htext] at hstarts
  | cons first rest =>
    rw [htext] at hchars hstarts
    have hfirst : isStart (keyChar delimiter first) = true := by
      rw [← isStart_or_isJoint]
      simpa using hstarts
    simp only [String.toList_ofList, hfirst, isPart_of_isStart hfirst, List.all_cons, Bool.true_or,
      Bool.true_and, List.all_map, List.all_eq_true, Function.comp_apply]
    intro c hc
    split
    · simp [isKept_mark]
    · exact hchars c (List.mem_cons_of_mem _ hc)

/-! ## Characters of symbols -/

theorem toList_sanitize_legacy (component : String) :
    (sanitize .legacy component).toList = component.toList.map (sanitizeChar .legacy) := by
  simp [sanitize]

theorem isLegacyChar_sanitizeChar (delimiter c : Char) :
    isLegacyChar delimiter (sanitizeChar .legacy c) = true := by
  unfold isLegacyChar sanitizeChar
  split
  · rename_i hpart
    simp [hpart]
  · split
    · rename_i hkept
      simp [(Bool.and_eq_true_iff.1 hkept).2]
    · simp [isPart]

end Name

namespace Registry

open Name

variable {registry : Registry} {id : FunctionId} {symbol : Symbol} {spelling : String}

theorem isLegacyChar_of_mem_stem (hlegacy : registry.spelling = .legacy) {c : Char}
    (hc : c ∈ (registry.stem id).toList) : isLegacyChar registry.delimiter c = true := by
  have hsanitized : ∀ component, ∀ c ∈ (sanitize registry.spelling component).toList,
      isLegacyChar registry.delimiter c = true := by
    intro component c hc
    rw [hlegacy, toList_sanitize_legacy] at hc
    obtain ⟨d, _, rfl⟩ := List.mem_map.1 hc
    exact isLegacyChar_sanitizeChar registry.delimiter d
  rcases mem_stem hc with hpath | rfl | hmodule
  · exact hsanitized _ c hpath
  · simp [isLegacyChar, isPart]
  · exact hsanitized _ c hmodule

theorem isLegacyChar_of_mem_symbol (hlegacy : registry.spelling = .legacy)
    (h : registry.symbolOf id = .ok symbol) {c : Char} (hc : c ∈ symbol.toList) :
    isLegacyChar registry.delimiter c = true := by
  refine forall_mem_symbol (p := fun c => isLegacyChar registry.delimiter c = true) h
    (fun c => isLegacyChar_of_mem_stem hlegacy) ?_ ?_ hc
  · intro c hpart
    simp [isLegacyChar, hpart]
  · simp [isLegacyChar]

/-- The underscore before the name is not the first character of a symbol. -/
theorem underscore_mem_tail_symbol (hlegacy : registry.spelling = .legacy)
    (h : registry.symbolOf id = .ok symbol) : '_' ∈ symbol.toList.tail := by
  have hmodule : id.moduleName.toList ≠ [] := by
    intro hnil
    have hempty := (symbolOf_eq_ok.1 h).1
    rw [String.toList_eq_nil_iff.1 hnil] at hempty
    exact absurd hempty (by decide)
  have hstem : (registry.stem id).toList ≠ [] := by
    simp [stem, hlegacy, toList_sanitize_legacy, hmodule]
  obtain ⟨first, rest, hcons⟩ := List.exists_cons_of_ne_nil hstem
  simp [toList_symbolOf h, hcons]

/-- A key keeps the name and the groups of the symbol. -/
theorem map_keyChar_symbolOf (h : registry.symbolOf id = .ok symbol) :
    symbol.toList.map (keyChar registry.delimiter)
      = (registry.stem id).toList.map (keyChar registry.delimiter) ++ '_' :: id.name.toList
        ++ groups registry.delimiter id.paramTypes := by
  have hname : id.name.toList.map (keyChar registry.delimiter) = id.name.toList :=
    map_keyChar_of_isPart fun c hc => isPart_of_isIdentifier (symbolOf_eq_ok.1 h).2.1 hc
  have hgroup : ∀ ty : Scalar,
      (registry.delimiter :: ty.name.toList).map (keyChar registry.delimiter)
        = registry.delimiter :: ty.name.toList := by
    intro ty
    have hdelimiter : keyChar registry.delimiter registry.delimiter = registry.delimiter := by
      simp [keyChar]
    rw [List.map_cons, hdelimiter, map_keyChar_of_isPart fun c hc => ty.isPart_name hc]
  have hgroups : (groups registry.delimiter id.paramTypes).map (keyChar registry.delimiter)
      = groups registry.delimiter id.paramTypes := by
    simp only [groups, List.map_flatMap, hgroup]
  rw [toList_symbolOf h, List.map_append, List.map_append, List.map_cons, hname, hgroups,
    keyChar_of_isPart (by decide)]

/-! ## Aliases -/

/-- A function whose symbol a call may be spelled for. -/
def Matches (registry : Registry) (spelling : String) (id : FunctionId) (symbol : Symbol) : Prop :=
  registry.symbol? id = some symbol ∧ Agree registry.delimiter symbol spelling

/-- When a call is an alias. -/
theorem resolveSymbol_alias (hlegacy : registry.spelling = .legacy) {target : FunctionId} :
    registry.resolveSymbol spelling = .ok ⟨spelling, target, true⟩ ↔
      registry.owners.find? spelling = none
        ∧ isLegacySpelling registry.delimiter spelling = true
        ∧ registry.legacyOwner? spelling = some target := by
  unfold resolveSymbol
  rw [hlegacy]
  cases registry.owners.find? spelling with
  | some owner => simp
  | none =>
    by_cases hspelled : isLegacySpelling registry.delimiter spelling = true
    · cases registry.legacyOwner? spelling with
      | none => simp [hspelled]
      | some owner => simp [hspelled]
    · simp [hspelled]

theorem Consistent.mem_entries (h : registry.Consistent) :
    (symbol, id) ∈ registry.owners.entries ↔ registry.symbol? id = some symbol := by
  rw [NameTable.mem_entries]
  exact h.inverse symbol id

/-- What is recorded under a symbol has that symbol. -/
theorem Consistent.symbolOf_of_symbol? (h : registry.Consistent)
    (hsymbol : registry.symbol? id = some symbol) : registry.symbolOf id = .ok symbol :=
  h.named symbol id ((h.inverse symbol id).2 hsymbol)

theorem mem_symbols (h : registry.symbol? id = some symbol) : (id, symbol) ∈ registry.symbols := by
  obtain ⟨⟨owner, _⟩, hfind, rfl⟩ := Option.map_eq_some_iff.1 h
  obtain rfl : owner = id := by simpa using List.find?_some hfind
  exact List.mem_of_find?_eq_some hfind

/-- The owner that a spelling finds is the one with the least symbol that agrees. -/
theorem Consistent.legacyOwner?_eq_some (h : registry.Consistent) {target : FunctionId}
    (howner : registry.legacyOwner? spelling = some target) :
    ∃ symbol, registry.Matches spelling target symbol
      ∧ ∀ id other, registry.Matches spelling id other → symbol ≤ other := by
  obtain ⟨⟨symbol, owner⟩, hfind, rfl⟩ := Option.map_eq_some_iff.1 howner
  obtain ⟨hkey, before, later, hsplit, hbefore⟩ := List.find?_eq_some_iff_append.1 hfind
  have hmem : (symbol, owner) ∈ registry.owners.entries := by simp [hsplit]
  refine ⟨symbol, ⟨h.mem_entries.1 hmem, agree_iff.2 (by simpa using hkey)⟩, ?_⟩
  rintro id other ⟨hother, hagree⟩
  have hordered := registry.owners.ordered
  have hentry := h.mem_entries.2 hother
  rw [hsplit] at hordered hentry
  rcases List.mem_append.1 hentry with hentry | hentry
  · exact absurd (agree_iff.1 hagree) (by simpa using hbefore _ hentry)
  · rcases List.mem_cons.1 hentry with heq | hentry
    · cases heq
      exact String.le_refl _
    · have hlater := (List.pairwise_append.1 hordered).2.1
      exact Std.le_of_lt ((List.pairwise_cons.1 hlater).1 _ hentry)

theorem Consistent.exists_legacyOwner? (h : registry.Consistent)
    (hmatch : registry.Matches spelling id symbol) :
    ∃ target, registry.legacyOwner? spelling = some target := by
  rw [← Option.isSome_iff_exists, legacyOwner?, Option.isSome_map, List.find?_isSome]
  exact ⟨(symbol, id), h.mem_entries.2 hmatch.1, by simpa using agree_iff.1 hmatch.2⟩

/-- A symbol that starts like a name has a spelling that is an alias. -/
theorem Consistent.exists_alias (h : registry.Consistent) (hlegacy : registry.spelling = .legacy)
    (hsymbol : registry.symbol? id = some symbol)
    (hstarts : startsLikeName registry.delimiter symbol = true) :
    ∃ spelling target, Agree registry.delimiter symbol spelling
      ∧ registry.resolveSymbol spelling = .ok ⟨spelling, target, true⟩ := by
  have hnamed := h.named symbol id ((h.inverse symbol id).2 hsymbol)
  have hagree := agree_marked registry.delimiter symbol
  obtain ⟨target, howner⟩ := h.exists_legacyOwner? ⟨hsymbol, hagree⟩
  have hvacant : registry.owners.find? (marked registry.delimiter symbol) = none := by
    rw [Option.eq_none_iff_forall_ne_some]
    intro owner hfind
    exact underscore_notMem_tail_marked registry.delimiter symbol
      (underscore_mem_tail_symbol hlegacy (h.named _ owner hfind))
  have hspelled : isLegacySpelling registry.delimiter (marked registry.delimiter symbol) = true :=
    isLegacySpelling_marked (fun _ => isLegacyChar_of_mem_symbol hlegacy hnamed) hstarts
  exact ⟨_, target, hagree, (resolveSymbol_alias hlegacy).2 ⟨hvacant, hspelled, howner⟩⟩

/-- Every alias agrees with the symbol of its target only. -/
def Unambiguous (registry : Registry) : Prop :=
  ∀ spelling call, registry.resolveSymbol spelling = .ok call → call.isAlias = true →
    ∀ id symbol, registry.Matches spelling id symbol → id = call.target

/-- Symbols that start like a name agree with no symbol of another function. -/
def Separated (registry : Registry) : Prop :=
  ∀ a b first second, registry.symbol? a = some first → registry.symbol? b = some second →
    startsLikeName registry.delimiter first = true → Agree registry.delimiter first second → a = b

/-- Registration accepts symbols that agree, and an alias of such symbols reaches the function
that owns the least of them. So the aliases are unambiguous if and only if no two of the
functions have symbols that agree and start like a name. -/
theorem alias_unambiguous_iff {settings : Settings} {start : Registry}
    (hstart : ofSettings settings = .ok start) (hlegacy : settings.spelling = .legacy)
    (ids : List FunctionId) :
    (∀ spelling call, (start.recordAll ids).resolveSymbol spelling = .ok call →
      call.isAlias = true → ∃ symbol, (start.recordAll ids).Matches spelling call.target symbol
        ∧ ∀ id other, (start.recordAll ids).Matches spelling id other → symbol ≤ other)
    ∧ ((start.recordAll ids).Unambiguous ↔ (start.recordAll ids).Separated) := by
  have hconsistent := (consistent_ofSettings hstart).recordAll ids
  have hspelling : (start.recordAll ids).spelling = .legacy := by
    obtain ⟨_, rfl⟩ := ofSettings_ok hstart
    rw [(spelling_delimiter_recordAll _ ids).1, hlegacy]
  generalize start.recordAll ids = registry at hconsistent hspelling ⊢
  have halias : ∀ spelling call, registry.resolveSymbol spelling = .ok call →
      call.isAlias = true → isLegacySpelling registry.delimiter spelling = true
        ∧ registry.legacyOwner? spelling = some call.target := by
    rintro spelling ⟨written, target, isAlias⟩ hcall rfl
    obtain rfl := resolveSymbol_symbol hcall
    exact ((resolveSymbol_alias hspelling).1 hcall).2
  refine ⟨fun spelling call hcall his => ?_, fun hunambiguous => ?_, fun hseparated => ?_⟩
  · exact hconsistent.legacyOwner?_eq_some (halias spelling call hcall his).2
  · -- a spelling that is no symbol itself agrees with both symbols
    intro a b first second ha hb hstarts hagree
    obtain ⟨spelling, target, hspelled, hcall⟩ := hconsistent.exists_alias hspelling ha hstarts
    have hsecond : Agree registry.delimiter second spelling :=
      agree_iff.2 ((agree_iff.1 hagree).symm.trans (agree_iff.1 hspelled))
    exact (hunambiguous spelling _ hcall rfl a first ⟨ha, hspelled⟩).trans
      (hunambiguous spelling _ hcall rfl b second ⟨hb, hsecond⟩).symm
  · intro spelling call hcall his id symbol hmatch
    obtain ⟨hspelled, howner⟩ := halias spelling call hcall his
    obtain ⟨least, hleast, _⟩ := hconsistent.legacyOwner?_eq_some howner
    have hkeys := (agree_iff.1 hmatch.2).trans (agree_iff.1 hleast.2).symm
    refine hseparated id call.target symbol least hmatch.1 hleast.1 ?_ (agree_iff.2 hkeys)
    rw [startsLikeName_eq, agree_iff.1 hmatch.2, ← startsLikeName_eq]
    exact startsLikeName_of_isLegacySpelling hspelled

end Registry

namespace Sample

/-- Two symbols that agree but start with a digit, and one with an alias. -/
def numbered : List FunctionId :=
  [⟨"", "1-a", "f", []⟩, ⟨"", "1.a", "f", []⟩, ⟨"", "lib-m", "g", []⟩]

/-- Two symbols that agree. -/
def neighbours : List FunctionId :=
  [⟨"", "a.b", "f", []⟩, ⟨"", "a-b", "f", []⟩]

end Sample

namespace Registry

theorem alias_unambiguous_iff_numbered :
    ∃ start, ofSettings Settings.legacy = .ok start ∧ Settings.legacy.spelling = .legacy
      ∧ (start.recordAll Sample.numbered).symbols.map (·.2) = ["lib-m_g", "1.a_f", "1-a_f"]
      ∧ (start.recordAll Sample.numbered).resolveSymbol "lib_m_g"
        = .ok ⟨"lib_m_g", ⟨"", "lib-m", "g", []⟩, true⟩
      ∧ (start.recordAll Sample.numbered).Unambiguous := by
  have hstart : ofSettings Settings.legacy = .ok { spelling := .legacy, delimiter := '$' } := rfl
  refine ⟨_, hstart, rfl, by decide +kernel, by decide +kernel, ?_⟩
  refine (alias_unambiguous_iff hstart rfl Sample.numbered).2.2 ?_
  intro a b first second ha hb hstarts hagree
  have hall : (recordAll { spelling := .legacy, delimiter := '$' } Sample.numbered).symbols.all
      (fun x => (recordAll { spelling := .legacy, delimiter := '$' } Sample.numbered).symbols.all
        fun y => !(Name.startsLikeName '$' x.2
          && Name.legacyKey '$' x.2 == Name.legacyKey '$' y.2) || x.1 == y.1) = true := by
    decide +kernel
  have hpair := List.all_eq_true.1 (List.all_eq_true.1 hall _ (mem_symbols ha)) _ (mem_symbols hb)
  have hkey : Name.legacyKey '$' first = Name.legacyKey '$' second := Name.agree_iff.1 hagree
  have hstarts' : Name.startsLikeName '$' first = true := hstarts
  simpa [hkey, hstarts'] using hpair

/-- A call that agrees with two symbols reaches the function that was registered last. -/
theorem alias_ambiguous :
    ∃ start target other, ofSettings Settings.legacy = .ok start ∧ other ≠ target
      ∧ Sample.neighbours = [other, target]
      ∧ (start.recordAll Sample.neighbours).resolveSymbol "a_b_f" = .ok ⟨"a_b_f", target, true⟩
      ∧ (start.recordAll Sample.neighbours).Matches "a_b_f" target "a-b_f"
      ∧ (start.recordAll Sample.neighbours).Matches "a_b_f" other "a.b_f" := by
  have hstart : ofSettings Settings.legacy = .ok { spelling := .legacy, delimiter := '$' } := rfl
  refine ⟨_, ⟨"", "a-b", "f", []⟩, ⟨"", "a.b", "f", []⟩, hstart, by decide, rfl,
    by decide +kernel, ⟨by decide +kernel, ?_⟩, ⟨by decide +kernel, ?_⟩⟩
  all_goals exact Name.agree_iff.2 (by decide +kernel)

end Registry

end ScalarC
