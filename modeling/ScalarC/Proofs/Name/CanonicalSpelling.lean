import ScalarC.Proofs.Name.Ambiguity

/-!
# Canonical spellings of calls

In legacy spelling a call may put underscores for the hyphens and dots of a symbol. The
canonical spelling of the function does so as well, but it differs from the key of the symbol
in two ways: it puts an underscore in front of a leading digit, and it replaces hyphens and
dots of the path and the module also where these are the delimiter. So a call in canonical
spelling reaches a function with that canonical spelling if neither is the case for the
function that is meant and for the one that is found, and it may fail otherwise.
-/

namespace ScalarC

namespace Name

variable {delimiter c : Char} {component text : String}

/-! ## Components -/

/-- Whether a path or module neither starts with a digit nor holds a kept delimiter. -/
def isPlain (delimiter : Char) (component : String) : Bool :=
  !component.toList.head?.any Char.isDigit
    && !(isKept delimiter && component.toList.contains delimiter)

theorem isPart_sanitizeChar (c : Char) : isPart (sanitizeChar .canonical c) = true := by
  unfold sanitizeChar
  split
  · assumption
  · simp [isPart]

theorem isPart_of_isDigit (h : c.isDigit = true) : isPart c = true := by
  simp [isPart, Char.isAlphanum, h]

/-- Only digits become digits. -/
theorem isDigit_sanitizeChar (c : Char) : (sanitizeChar .canonical c).isDigit = c.isDigit := by
  by_cases hpart : isPart c = true
  · simp [sanitizeChar, hpart]
  · have hdigit : c.isDigit = false := by
      by_contra hdigit
      exact hpart (isPart_of_isDigit (by simpa using hdigit))
    simp [sanitizeChar, hpart, hdigit]

/-- The canonical spelling of a text, with the underscore in front of a digit apart. -/
theorem toList_sanitize_canonical (component : String) :
    (sanitize .canonical component).toList
      = (if component.toList.head?.any Char.isDigit then ['_'] else [])
        ++ component.toList.map (sanitizeChar .canonical) := by
  unfold sanitize
  cases hchars : component.toList with
  | nil => simp
  | cons first rest =>
    simp only [List.map_cons, isDigit_sanitizeChar, List.head?_cons, Option.any_some]
    by_cases hdigit : first.isDigit = true
    · simp [hdigit]
    · simp [hdigit]

theorem isPart_of_mem_sanitize (hc : c ∈ (sanitize .canonical component).toList) :
    isPart c = true := by
  rw [toList_sanitize_canonical, List.mem_append, List.mem_map] at hc
  rcases hc with hc | ⟨d, _, rfl⟩
  · split at hc
    · obtain rfl := List.mem_singleton.1 hc
      decide
    · cases hc
  · exact isPart_sanitizeChar d

/-- The canonical spelling of a text starts like a name. -/
theorem exists_cons_sanitize (component : String) (h : component.toList ≠ []) :
    ∃ first rest, (sanitize .canonical component).toList = first :: rest ∧ isStart first = true := by
  obtain ⟨c, rest, hchars⟩ := List.exists_cons_of_ne_nil h
  rw [toList_sanitize_canonical, hchars, List.head?_cons, Option.any_some, List.map_cons]
  by_cases hdigit : c.isDigit = true
  · exact ⟨'_', _, by rw [if_pos hdigit]; rfl, by decide⟩
  · refine ⟨_, _, by rw [if_neg hdigit]; rfl, ?_⟩
    -- an identifier character that is no digit
    have hpart := isPart_sanitizeChar c
    have hplain := isDigit_sanitizeChar c
    simp only [isPart, Char.isAlphanum, hplain, Bool.or_eq_true, hdigit] at hpart
    simpa [isStart] using hpart

/-- The key of a character in legacy spelling is the character in canonical spelling, unless it
is a kept delimiter. -/
theorem keyChar_sanitizeChar :
    keyChar delimiter (sanitizeChar .legacy c) = sanitizeChar .canonical c ↔
      ¬(isKept c = true ∧ c = delimiter) := by
  by_cases hpart : isPart c = true
  · simp [sanitizeChar, hpart, keyChar_of_isPart hpart, isKept_of_isPart hpart]
  · by_cases hkept : isKept c = true
    · have hlegacy : sanitizeChar .legacy c = c := by simp [sanitizeChar, hkept]
      have hcanonical : sanitizeChar .canonical c = '_' := by simp [sanitizeChar, hpart]
      have hne : c ≠ '_' := by
        rintro rfl
        exact absurd hkept (by decide)
      rw [hlegacy, hcanonical]
      by_cases heq : c = delimiter
      · simp [keyChar, heq, heq ▸ hne, heq ▸ hkept]
      · simp [keyChar, heq, hkept]
    · simp [sanitizeChar, hpart, hkept, keyChar_of_isPart (c := '_') (by decide)]

theorem length_sanitize_canonical (component : String) :
    (sanitize .canonical component).toList.length = (sanitize .legacy component).toList.length
      + if component.toList.head?.any Char.isDigit then 1 else 0 := by
  rw [toList_sanitize_canonical, toList_sanitize_legacy, List.length_append, List.length_map,
    List.length_map, Nat.add_comm]
  split <;> rfl

/-- The key of the legacy spelling is the canonical spelling exactly for plain texts. -/
theorem map_keyChar_sanitize_iff :
    (sanitize .legacy component).toList.map (keyChar delimiter)
        = (sanitize .canonical component).toList ↔ isPlain delimiter component = true := by
  have hkept : (∀ c ∈ component.toList, ¬(isKept c = true ∧ c = delimiter)) ↔
      (isKept delimiter && component.toList.contains delimiter) = false := by
    rw [← Bool.not_eq_true, Bool.and_eq_true, List.contains_iff_mem]
    constructor
    · rintro hnone ⟨hdelimiter, hmem⟩
      exact hnone delimiter hmem ⟨hdelimiter, rfl⟩
    · rintro hnone c hc ⟨hc', rfl⟩
      exact hnone ⟨hc', hc⟩
  by_cases hdigit : component.toList.head?.any Char.isDigit = true
  · -- the canonical spelling is longer
    have hlength := length_sanitize_canonical component
    rw [if_pos hdigit] at hlength
    simp only [isPlain, hdigit, Bool.not_true, Bool.false_and, Bool.false_eq_true, iff_false]
    intro heq
    have hsame := congrArg List.length heq
    rw [List.length_map] at hsame
    omega
  · rw [toList_sanitize_canonical, toList_sanitize_legacy, if_neg hdigit, List.nil_append,
      List.map_map, List.map_inj_left]
    simp only [Function.comp_apply, keyChar_sanitizeChar, hkept, isPlain, hdigit, Bool.not_false,
      Bool.true_and, Bool.not_eq_true']

/-! ## Spellings -/

theorem isLegacySpelling_of_isSanitized (h : isSanitized delimiter text = true) :
    isLegacySpelling delimiter text = true := by
  unfold isSanitized isSpelledWith at h
  unfold isLegacySpelling isSpelledWith
  split at h
  · cases h
  · simp only [Bool.and_eq_true, List.all_eq_true] at h ⊢
    exact ⟨h.1, fun c hc => by simp [h.2 c hc]⟩

/-- A canonical spelling is its own key. -/
theorem legacyKey_of_isSanitized (h : isSanitized delimiter text = true) :
    legacyKey delimiter text = text := by
  have hchars : ∀ c ∈ text.toList, keyChar delimiter c = c := by
    intro c hc
    unfold isSanitized isSpelledWith at h
    split at h
    · cases h
    · rename_i first rest heq
      simp only [Bool.and_eq_true, List.all_eq_true, Bool.or_eq_true, beq_iff_eq, ← heq] at h
      rcases h.2 c hc with hpart | rfl
      · exact keyChar_of_isPart hpart
      · simp [keyChar]
  rw [← String.toList_inj, toList_legacyKey, List.map_congr_left hchars, List.map_id']

end Name

/-- Whether the path and the module of a function are plain. -/
def FunctionId.isPlain (delimiter : Char) (id : FunctionId) : Bool :=
  Name.isPlain delimiter id.path && Name.isPlain delimiter id.moduleName

namespace Registry

open Name

variable {registry : Registry} {id : FunctionId} {symbol raw : Symbol} {delimiter : Char}

/-- The registry, with symbols in canonical spelling. -/
def canonical (registry : Registry) : Registry := { registry with spelling := .canonical }

/-! ## Stems -/

theorem map_keyChar_pathPart_iff (path : String) :
    (pathPart .legacy path).toList.map (keyChar delimiter) = (pathPart .canonical path).toList ↔
      Name.isPlain delimiter path = true := by
  by_cases hpath : path.isEmpty = true
  · obtain rfl : path = "" := by simpa using hpath
    simp [pathPart, Name.isPlain]
  · have hunderscore : keyChar delimiter '_' = '_' := keyChar_of_isPart (by decide)
    simp only [pathPart, hpath, Bool.false_eq_true, if_false, String.toList_append,
      List.map_append, ← map_keyChar_sanitize_iff]
    simp [hunderscore]

theorem length_pathPart_le (path : String) :
    (pathPart .legacy path).toList.length ≤ (pathPart .canonical path).toList.length := by
  have hlength := length_sanitize_canonical path
  unfold pathPart
  by_cases hpath : path.isEmpty = true
  · simp [hpath]
  · simp only [hpath, Bool.false_eq_true, if_false, String.toList_append, List.length_append]
    omega

/-- The key of the legacy stem is the canonical stem exactly if path and module are plain. -/
theorem map_keyChar_stem_iff (hlegacy : registry.spelling = .legacy) :
    (registry.stem id).toList.map (keyChar delimiter) = (registry.canonical.stem id).toList ↔
      id.isPlain delimiter = true := by
  have hpath := length_pathPart_le id.path
  have hmodule := length_sanitize_canonical id.moduleName
  rw [FunctionId.isPlain, Bool.and_eq_true, ← map_keyChar_pathPart_iff, ← map_keyChar_sanitize_iff]
  simp only [stem, hlegacy, canonical, String.toList_append, List.map_append]
  constructor
  · intro heq
    -- neither part is longer in legacy spelling, so each is as long as in canonical spelling
    have hlength := congrArg List.length heq
    simp only [List.length_append, List.length_map] at hlength
    refine List.append_inj heq ?_
    rw [List.length_map]
    omega
  · rintro ⟨hleft, hright⟩
    rw [hleft, hright]

theorem isPart_of_mem_stem {c : Char} (hc : c ∈ (registry.canonical.stem id).toList) :
    isPart c = true := by
  rcases mem_stem hc with hpath | rfl | hmodule
  · exact isPart_of_mem_sanitize hpath
  · decide
  · exact isPart_of_mem_sanitize hmodule

theorem exists_cons_stem (registry : Registry) (hmodule : id.moduleName.isEmpty = false) :
    ∃ first rest, (registry.canonical.stem id).toList = first :: rest ∧ isStart first = true := by
  by_cases hpath : id.path.isEmpty = true
  · obtain ⟨first, rest, hcons, hfirst⟩ :=
      exists_cons_sanitize id.moduleName (by simpa using hmodule)
    exact ⟨first, rest, by simp [stem, pathPart, hpath, canonical, hcons], hfirst⟩
  · obtain ⟨first, rest, hcons, hfirst⟩ := exists_cons_sanitize id.path (by simpa using hpath)
    refine ⟨first, rest ++ '_' :: (sanitize .canonical id.moduleName).toList, ?_, hfirst⟩
    simp [stem, pathPart, hpath, canonical, hcons]

/-! ## Canonical symbols -/

theorem exists_symbolOf_canonical (h : registry.symbolOf id = .ok symbol) :
    ∃ raw, registry.canonical.symbolOf id = .ok raw := by
  obtain ⟨hmodule, hname, _⟩ := symbolOf_eq_ok.1 h
  exact ⟨_, symbolOf_eq_ok.2 ⟨hmodule, hname, rfl⟩⟩

/-- A canonical symbol is spelled as such. -/
theorem isSanitized_symbolOf (h : registry.canonical.symbolOf id = .ok raw) :
    isSanitized registry.delimiter raw = true := by
  obtain ⟨first, rest, hcons, hfirst⟩ := exists_cons_stem registry (symbolOf_eq_ok.1 h).1
  have hall : ∀ c ∈ raw.toList, (isPart c || c == registry.delimiter) = true := by
    intro c hc
    refine forall_mem_symbol (p := fun c => (isPart c || c == registry.delimiter) = true) h
      ?_ ?_ ?_ hc
    · intro c hstem
      simp [isPart_of_mem_stem hstem]
    · intro c hpart
      simp [hpart]
    · simp [canonical]
  rw [toList_symbolOf h, hcons] at hall
  unfold isSanitized isSpelledWith
  rw [toList_symbolOf h, hcons]
  simp only [List.cons_append, hfirst, Bool.true_and, List.all_eq_true]
  exact hall

/-- The key of a symbol is the canonical symbol exactly for plain functions. -/
theorem symbolOf_canonical_legacyKey_iff (hlegacy : registry.spelling = .legacy)
    (h : registry.symbolOf id = .ok symbol) :
    registry.canonical.symbolOf id = .ok (legacyKey registry.delimiter symbol) ↔
      id.isPlain registry.delimiter = true := by
  obtain ⟨raw, hraw⟩ := exists_symbolOf_canonical h
  rw [hraw, Except.ok.injEq, ← String.toList_inj, toList_legacyKey, map_keyChar_symbolOf h,
    toList_symbolOf hraw, ← map_keyChar_stem_iff hlegacy]
  simp only [canonical, List.append_cancel_right_eq]
  exact eq_comm

/-! ## Calls in canonical spelling -/

/-- A function whose symbol agrees with a canonical spelling has that canonical spelling exactly
if it is plain. -/
theorem symbolOf_canonical_iff_of_agree (hlegacy : registry.spelling = .legacy)
    (h : registry.symbolOf id = .ok symbol) (hraw : isSanitized registry.delimiter raw = true)
    (hagree : Agree registry.delimiter symbol raw) :
    registry.canonical.symbolOf id = .ok raw ↔ id.isPlain registry.delimiter = true := by
  rw [← symbolOf_canonical_legacyKey_iff hlegacy h, agree_iff.1 hagree,
    legacyKey_of_isSanitized hraw]

theorem agree_canonical_iff (hlegacy : registry.spelling = .legacy)
    (h : registry.symbolOf id = .ok symbol) (hraw : registry.canonical.symbolOf id = .ok raw) :
    Agree registry.delimiter symbol raw ↔ id.isPlain registry.delimiter = true := by
  rw [← symbolOf_canonical_legacyKey_iff hlegacy h, hraw, agree_iff, Except.ok.injEq,
    legacyKey_of_isSanitized (isSanitized_symbolOf hraw)]
  exact eq_comm

/-- The target of a call has a symbol that agrees with the call. -/
theorem Consistent.matches_of_resolveSymbol (h : registry.Consistent) {spelling : String}
    {call : ResolvedCall} (hcall : registry.resolveSymbol spelling = .ok call) :
    ∃ symbol, registry.Matches spelling call.target symbol := by
  obtain ⟨written, target, isAlias⟩ := call
  obtain rfl := resolveSymbol_symbol hcall
  cases isAlias with
  | true =>
    obtain ⟨symbol, howner, hkey⟩ := exists_owner_of_alias hcall
    exact ⟨symbol, (h.inverse symbol target).1 howner, agree_iff.2 hkey⟩
  | false =>
    have howner := owner_of_resolveSymbol hcall
    exact ⟨_, (h.inverse _ target).1 howner, agree_iff.2 rfl⟩

/-- A call that agrees with a symbol has a target. -/
theorem Consistent.exists_resolveSymbol (h : registry.Consistent)
    (hlegacy : registry.spelling = .legacy) {spelling : String}
    (hspelled : isLegacySpelling registry.delimiter spelling = true)
    (hmatch : registry.Matches spelling id symbol) :
    ∃ call, registry.resolveSymbol spelling = .ok call := by
  cases howner : registry.owners.find? spelling with
  | some owner => exact ⟨⟨spelling, owner, false⟩, by simp [resolveSymbol, howner]⟩
  | none =>
    obtain ⟨target, htarget⟩ := h.exists_legacyOwner? hmatch
    exact ⟨_, (resolveSymbol_alias hlegacy).2 ⟨howner, hspelled, htarget⟩⟩

/-- A call in the canonical spelling of a function is resolved exactly if it agrees with the
symbol of some function. It agrees with the symbol of the function itself exactly if that one
is plain, and the function that it reaches has the same canonical spelling exactly if that one
is plain. -/
theorem canonical_resolves_iff {settings : Settings} {start : Registry}
    (hstart : ofSettings settings = .ok start) (hlegacy : settings.spelling = .legacy)
    (ids : List FunctionId) {id : FunctionId} {symbol : Symbol}
    (hsymbol : (start.recordAll ids).symbol? id = some symbol) :
    ∃ raw, (start.recordAll ids).canonical.symbolOf id = .ok raw
      ∧ ((∃ call, (start.recordAll ids).resolveSymbol raw = .ok call) ↔
        ∃ other found, (start.recordAll ids).Matches raw other found)
      ∧ ((start.recordAll ids).Matches raw id symbol ↔ id.isPlain settings.delimiter = true)
      ∧ ∀ call, (start.recordAll ids).resolveSymbol raw = .ok call →
        ((start.recordAll ids).canonical.symbolOf call.target = .ok raw ↔
          call.target.isPlain settings.delimiter = true) := by
  have hconsistent := (consistent_ofSettings hstart).recordAll ids
  obtain ⟨hspelling, hdelimiter⟩ := recordAll_ofSettings hstart ids
  rw [hlegacy] at hspelling
  rw [← hdelimiter]
  generalize start.recordAll ids = registry at hconsistent hspelling hsymbol ⊢
  have hnamed := hconsistent.symbolOf_of_symbol? hsymbol
  obtain ⟨raw, hraw⟩ := exists_symbolOf_canonical hnamed
  have hsanitized := isSanitized_symbolOf hraw
  refine ⟨raw, hraw, ⟨?_, ?_⟩, ?_, ?_⟩
  · rintro ⟨call, hcall⟩
    obtain ⟨found, hmatch⟩ := hconsistent.matches_of_resolveSymbol hcall
    exact ⟨call.target, found, hmatch⟩
  · rintro ⟨other, found, hmatch⟩
    exact hconsistent.exists_resolveSymbol hspelling
      (isLegacySpelling_of_isSanitized hsanitized) hmatch
  · rw [← agree_canonical_iff hspelling hnamed hraw, Matches]
    exact and_iff_right hsymbol
  · intro call hcall
    obtain ⟨found, htarget, hagree⟩ := hconsistent.matches_of_resolveSymbol hcall
    exact symbolOf_canonical_iff_of_agree hspelling (hconsistent.symbolOf_of_symbol? htarget)
      hsanitized hagree

end Registry

namespace Sample

/-- A function whose module starts with a digit. -/
def numberedModule : FunctionId := ⟨"/p", "9lives", "f", []⟩

/-- A function with a hyphen in its module. -/
def hyphenModule : FunctionId := ⟨"", "a-b", "f", []⟩

/-- The canonical spelling of the first is the legacy symbol of the second. -/
def shadowed : List FunctionId := [⟨"a", "-9b", "f", []⟩, ⟨"a_", "9b", "f", []⟩]

end Sample

namespace Registry

theorem canonical_resolves_iff_hyphen :
    ∃ start, ofSettings Settings.legacy = .ok start ∧ Settings.legacy.spelling = .legacy
      ∧ (start.recordAll [Sample.hyphenModule, Sample.numberedModule]).symbol? Sample.hyphenModule
        = some "a-b_f"
      ∧ ∃ call, (start.recordAll [Sample.hyphenModule, Sample.numberedModule]).resolveSymbol "a_b_f"
          = .ok call
        ∧ (start.recordAll [Sample.hyphenModule, Sample.numberedModule]).canonical.symbolOf
          call.target = .ok "a_b_f" := by
  have hstart : ofSettings Settings.legacy = .ok { spelling := .legacy, delimiter := '$' } := rfl
  have hsymbol : (recordAll { spelling := .legacy, delimiter := '$' }
      [Sample.hyphenModule, Sample.numberedModule]).symbol? Sample.hyphenModule
        = some "a-b_f" := by decide +kernel
  have hnamed : (recordAll { spelling := .legacy, delimiter := '$' }
      [Sample.hyphenModule, Sample.numberedModule]).canonical.symbolOf Sample.hyphenModule
        = .ok "a_b_f" := by decide +kernel
  have hfound : (recordAll { spelling := .legacy, delimiter := '$' }
      [Sample.hyphenModule, Sample.numberedModule]).resolveSymbol "a_b_f"
        = .ok ⟨"a_b_f", Sample.hyphenModule, true⟩ := by decide +kernel
  obtain ⟨raw, hraw, _, _, htarget⟩ := canonical_resolves_iff hstart rfl _ hsymbol
  obtain rfl : "a_b_f" = raw := Except.ok.inj (hnamed.symm.trans hraw)
  exact ⟨_, hstart, rfl, hsymbol, _, hfound, (htarget _ hfound).2 (by decide)⟩

/-- A call in canonical spelling can fail, if a module starts with a digit or holds the
delimiter, and it can reach a function of another canonical spelling. -/
theorem canonical_unresolved :
    (∃ start, ofSettings Settings.legacy = .ok start
      ∧ (start.recordAll [Sample.numberedModule]).symbol? Sample.numberedModule
        = some "_p_9lives_f"
      ∧ start.canonical.symbolOf Sample.numberedModule = .ok "_p__9lives_f"
      ∧ (start.recordAll [Sample.numberedModule]).resolveSymbol "_p__9lives_f"
        = .error (.unknownFunction "_p__9lives_f"))
    ∧ (∃ start, ofSettings { Settings.legacy with delimiter := '-' } = .ok start
      ∧ (start.recordAll [Sample.hyphenModule]).symbol? Sample.hyphenModule = some "a-b_f"
      ∧ start.canonical.symbolOf Sample.hyphenModule = .ok "a_b_f"
      ∧ (start.recordAll [Sample.hyphenModule]).resolveSymbol "a_b_f"
        = .error (.unknownFunction "a_b_f"))
    ∧ ∃ start first second, ofSettings Settings.legacy = .ok start
      ∧ Sample.shadowed = [first, second]
      ∧ start.canonical.symbolOf first = .ok "a__9b_f"
      ∧ (start.recordAll Sample.shadowed).resolveSymbol "a__9b_f" = .ok ⟨"a__9b_f", second, false⟩
      ∧ start.canonical.symbolOf second = .ok "a___9b_f" := by
  refine ⟨⟨_, rfl, ?_⟩, ⟨_, rfl, ?_⟩, ⟨_, _, _, rfl, rfl, ?_⟩⟩
  all_goals decide +kernel

end Registry

end ScalarC
