import ScalarC.Proofs.Name.CanonicalSpelling

/-!
# The form of canonical symbols

In canonical spelling every path and module becomes an identifier, whatever its characters
are, and identifiers stay as they are. So a symbol is an identifier with one group behind it
for each parameter, and the delimiter stands at the start of the groups and nowhere else.

## Main statements

* `Name.sanitize_eq_self_iff`: the texts that are spelled already.
* `Registry.canonical_wellFormed`: components and symbols in canonical spelling.
-/

namespace ScalarC

namespace Name

variable {component text : String} {delimiter : Char} {types : List Scalar}

/-! ## Components -/

theorem isIdentifier_of_toList {first : Char} {rest : List Char}
    (htext : text.toList = first :: rest) (hfirst : isStart first = true)
    (hparts : ∀ c ∈ text.toList, isPart c = true) : isIdentifier text = true := by
  simp only [htext, List.forall_mem_cons] at hparts
  simp only [isIdentifier, htext, hfirst, Bool.true_and, List.all_eq_true]
  exact hparts.2

theorem isIdentifier_sanitize (h : component ≠ "") :
    isIdentifier (sanitize .canonical component) = true := by
  have hchars : component.toList ≠ [] := by simpa using h
  obtain ⟨first, rest, hcons, hfirst⟩ := exists_cons_sanitize component hchars
  exact isIdentifier_of_toList hcons hfirst fun c hc => isPart_of_mem_sanitize hc

/-- An identifier starts with no digit and has no character to replace. -/
theorem sanitize_of_isIdentifier (h : isIdentifier text = true) :
    sanitize .canonical text = text := by
  have hmap : text.toList.map (sanitizeChar .canonical) = text.toList := by
    have hsame : ∀ c ∈ text.toList, sanitizeChar .canonical c = c := by
      intro c hc
      simp [sanitizeChar, isPart_of_isIdentifier h hc]
    rw [List.map_congr_left hsame, List.map_id']
  have hdigit : text.toList.head?.any Char.isDigit = false := by
    cases hchars : text.toList with
    | nil => rfl
    | cons first rest =>
      simp only [isIdentifier, hchars, Bool.and_eq_true] at h
      exact CExpr.isDigit_of_isStart h.1
  rw [← String.toList_inj, toList_sanitize_canonical, hmap, hdigit]
  rfl

/-- The spelling of a text is the text itself exactly for identifiers and the empty text. -/
theorem sanitize_eq_self_iff :
    sanitize .canonical text = text ↔ isIdentifier text = true ∨ text = "" := by
  constructor
  · intro h
    by_cases hempty : text = ""
    · exact .inr hempty
    · rw [← h]
      exact .inl (isIdentifier_sanitize hempty)
  · intro h
    cases h with
    | inl hname => exact sanitize_of_isIdentifier hname
    | inr hempty =>
      rw [hempty]
      rfl

theorem sanitize_sanitize (component : String) :
    sanitize .canonical (sanitize .canonical component) = sanitize .canonical component := by
  rw [sanitize_eq_self_iff]
  by_cases hempty : component = ""
  · rw [hempty]
    exact .inr rfl
  · exact .inl (isIdentifier_sanitize hempty)

/-! ## Symbols -/

/-- An identifier followed by one group of the delimiter and a type name for each type. The
delimiter opens the groups and stands nowhere else. -/
structure WellFormed (delimiter : Char) (types : List Scalar) (symbol : String) : Prop where
  exists_head : ∃ head, isIdentifier head = true
    ∧ symbol.toList = head.toList ++ types.flatMap fun ty => delimiter :: ty.name.toList
  count : symbol.toList.count delimiter = types.length
  isSanitized : isSanitized delimiter symbol = true

theorem count_of_isPart (hdelimiter : isPart delimiter = false) {chars : List Char}
    (h : ∀ c ∈ chars, isPart c = true) : chars.count delimiter = 0 := by
  rw [List.count_eq_zero]
  intro hmem
  rw [h delimiter hmem] at hdelimiter
  cases hdelimiter

/-- Each group has the delimiter once, since no type name contains it. -/
theorem count_groups (hdelimiter : isPart delimiter = false) (types : List Scalar) :
    (types.flatMap fun ty => delimiter :: ty.name.toList).count delimiter = types.length := by
  induction types with
  | nil => rfl
  | cons ty types ih =>
    have hname := count_of_isPart hdelimiter fun c hc => ty.isPart_name hc
    rw [List.flatMap_cons, List.count_append, List.count_cons_self, hname, ih, List.length_cons]
    omega

end Name

namespace Registry

open Name

variable {registry : Registry} {id : FunctionId} {symbol : Symbol}

/-- What stands in front of the groups is an identifier: the stem is one, and an underscore and
the name follow it. -/
theorem isIdentifier_head (hspelling : registry.spelling = .canonical)
    (h : registry.symbolOf id = .ok symbol) :
    isIdentifier (registry.stem id ++ "_" ++ id.name) = true := by
  have hcanonical : registry = registry.canonical := by
    rw [canonical, ← hspelling]
  obtain ⟨hmodule, hname, _⟩ := symbolOf_eq_ok.1 h
  obtain ⟨first, rest, hstem, hfirst⟩ := exists_cons_stem registry hmodule
  rw [← hcanonical] at hstem
  have htext : (registry.stem id ++ "_" ++ id.name).toList
      = first :: (rest ++ '_' :: id.name.toList) := by
    simp [hstem]
  refine isIdentifier_of_toList htext hfirst fun c hc => ?_
  rw [String.toList_append, String.toList_append, List.mem_append, List.mem_append] at hc
  rcases hc with (hc | hc) | hc
  · rw [hcanonical] at hc
    exact isPart_of_mem_stem hc
  · rw [List.mem_singleton.1 hc]
    decide
  · exact isPart_of_isIdentifier hname hc

theorem wellFormed_symbolOf (hspelling : registry.spelling = .canonical)
    (hdelimiter : isPart registry.delimiter = false) (h : registry.symbolOf id = .ok symbol) :
    WellFormed registry.delimiter id.paramTypes symbol := by
  have hhead := isIdentifier_head hspelling h
  have hchars : symbol.toList = (registry.stem id ++ "_" ++ id.name).toList
      ++ id.paramTypes.flatMap fun ty => registry.delimiter :: ty.name.toList := by
    rw [toList_symbolOf h]
    simp [groups]
  refine ⟨⟨_, hhead, hchars⟩, ?_, ?_⟩
  · have hnone := count_of_isPart hdelimiter fun c hc => isPart_of_isIdentifier hhead hc
    rw [hchars, List.count_append, hnone, count_groups hdelimiter, Nat.zero_add]
  · have hcanonical : registry.canonical.symbolOf id = .ok symbol := by
      rw [canonical, ← hspelling]
      exact h
    exact isSanitized_symbolOf hcanonical

/-- Canonical spelling turns every text that is not empty into an identifier, and a second time
changes nothing. With every valid delimiter, a symbol in canonical spelling is an identifier
with the groups of its parameters behind it, and has the delimiter once for each of them. -/
theorem canonical_wellFormed :
    (∀ component, (component ≠ "" → isIdentifier (sanitize .canonical component) = true)
      ∧ sanitize .canonical (sanitize .canonical component) = sanitize .canonical component)
    ∧ ∀ {settings start}, ofSettings settings = .ok start → settings.spelling = .canonical →
      ∀ ids {id symbol}, (start.recordAll ids).symbolOf id = .ok symbol →
        WellFormed settings.delimiter id.paramTypes symbol := by
  refine ⟨fun component => ⟨isIdentifier_sanitize, sanitize_sanitize component⟩, ?_⟩
  intro settings start hstart hspelling ids id symbol h
  obtain ⟨hspell, hdelim⟩ := recordAll_ofSettings hstart ids
  have hdelimiter := Settings.isPart_delimiter (ofSettings_ok hstart).1
  rw [← hdelim] at hdelimiter ⊢
  exact wellFormed_symbolOf (hspell.trans hspelling) hdelimiter h

/-- A path and a module of separators, digits and letters outside ASCII, with a bracket as the
delimiter, which both contain. -/
theorem canonical_wellFormed_brackets :
    ∃ start symbol, ofSettings { delimiter := '[' } = .ok start
      ∧ (start.recordAll []).symbolOf ⟨"9[é/", "٣[-", "f", [.u8, .f_16]⟩ = .ok symbol
      ∧ symbol = "_9________f[u8[f_16"
      ∧ WellFormed '[' [.u8, .f_16] symbol
      ∧ isIdentifier (sanitize .canonical "9[é/") = true
      ∧ sanitize .canonical (sanitize .canonical "٣[-") = sanitize .canonical "٣[-" := by
  have hstart : ofSettings { delimiter := '[' }
      = .ok { spelling := .canonical, delimiter := '[' } := rfl
  have hsymbol : (recordAll { spelling := .canonical, delimiter := '[' } []).symbolOf
      ⟨"9[é/", "٣[-", "f", [.u8, .f_16]⟩ = .ok "_9________f[u8[f_16" := by decide +kernel
  have hform := canonical_wellFormed
  exact ⟨_, _, hstart, hsymbol, rfl, hform.2 hstart rfl [] hsymbol, (hform.1 _).1 (by decide),
    (hform.1 _).2⟩

end Registry

end ScalarC
