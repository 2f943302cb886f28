import Mathlib.Data.List.Infix
import ScalarC.Proofs.Name.Registry

/-!
# Symbols and their parameters

The symbol of a function ends with an underscore, the name, and one group per parameter.
The delimiter of the groups may occur before the underscore, where the legacy spelling
keeps it in paths and modules, but neither in the name nor in a type. And no type has a
name behind an underscore: `f8_8` ends with a digit there. So the groups can be told from
what stands before them, and a symbol determines the types of its parameters.
-/

namespace ScalarC

/-- The last occurrence of an element splits a list in one way. -/
theorem append_cons_inj_of_notMem {α : Type} {a : α} {before before' after after' : List α}
    (h : a ∉ after) (h' : a ∉ after') (heq : before ++ a :: after = before' ++ a :: after') :
    before = before' ∧ after = after' := by
  rcases List.append_eq_append_iff.1 heq with ⟨middle, hleft, hright⟩ | ⟨middle, hleft, hright⟩
  · cases middle with
    | nil => simp_all
    | cons b middle =>
      obtain ⟨_, rfl⟩ := List.cons.inj hright
      simp at h
  · cases middle with
    | nil => simp_all
    | cons b middle =>
      obtain ⟨_, rfl⟩ := List.cons.inj hright
      simp at h'

namespace Name

theorem isPart_of_isIdentifier {name : String} (h : isIdentifier name) {c : Char}
    (hc : c ∈ name.toList) : isPart c := by
  unfold isIdentifier at h
  split at h
  · simp at h
  · rename_i first rest heq
    simp only [Bool.and_eq_true, List.all_eq_true] at h
    rw [heq] at hc
    rcases List.mem_cons.1 hc with rfl | hc
    · exact isPart_of_isStart h.1
    · exact h.2 c hc

end Name

namespace Scalar

theorem isPart_name (ty : Scalar) {c : Char} (hc : c ∈ ty.name.toList) : Name.isPart c := by
  have hall : ∀ ty ∈ all, ty.name.toList.all Name.isPart = true := by decide
  exact List.all_eq_true.1 (hall ty (mem_all ty)) c hc

theorem name_inj {ty ty' : Scalar} (h : ty.name = ty'.name) : ty = ty' := by
  have hname := ofName?_name ty
  rw [h, ofName?_name, Option.some.injEq] at hname
  exact hname.symm

/-- What follows an underscore in the name of a type is no identifier. -/
theorem not_isIdentifier_of_name {ty : Scalar} {before : List Char} {name : String}
    (h : ty.name.toList = before ++ '_' :: name.toList) : Name.isIdentifier name = false := by
  have hall : ∀ ty ∈ all, ∀ tail ∈ ty.name.toList.tails, tail.head? = some '_' →
      Name.isIdentifier (String.ofList tail.tail) = false := by decide
  have htail : '_' :: name.toList ∈ ty.name.toList.tails :=
    (List.mem_tails _ _).2 ⟨before, h.symm⟩
  simpa using hall ty (mem_all ty) _ htail rfl

end Scalar

/-- A delimiter that passes the check is no part of identifiers. -/
theorem Settings.isPart_delimiter {settings : Settings} (h : settings.check = .ok ()) :
    Name.isPart settings.delimiter = false := by
  unfold check at h
  by_contra hpart
  have hclass : (settings.delimiter.isAlphanum || settings.delimiter == '_') = true :=
    eq_true_of_ne_false hpart
  simp only [hclass, Bool.true_or, if_true] at h
  cases h

namespace Registry

variable {registry : Registry} {id : FunctionId} {symbol : Symbol}

/-- The part of a symbol that comes from the path and the module. -/
def stem (registry : Registry) (id : FunctionId) : String :=
  pathPart registry.spelling id.path ++ Name.sanitize registry.spelling id.moduleName

/-- The groups of the parameters, as characters. -/
def groups (delimiter : Char) (types : List Scalar) : List Char :=
  types.flatMap fun ty => delimiter :: ty.name.toList

theorem toList_paramPart (delimiter : Char) (types : List Scalar) :
    (paramPart delimiter types).toList = groups delimiter types := by
  simp [paramPart, groups, List.flatMap, Function.comp_def]

theorem groups_concat (delimiter : Char) (types : List Scalar) (ty : Scalar) :
    groups delimiter (types ++ [ty]) = groups delimiter types ++ delimiter :: ty.name.toList := by
  simp [groups]

theorem symbolOf_eq_ok : registry.symbolOf id = .ok symbol ↔
    id.moduleName.isEmpty = false ∧ Name.isIdentifier id.name = true
      ∧ symbol = registry.stem id ++ "_" ++ id.name
        ++ paramPart registry.delimiter id.paramTypes := by
  unfold symbolOf stem
  by_cases hmodule : id.moduleName.isEmpty = true
  · simp [hmodule]
  · by_cases hname : Name.isIdentifier id.name = true
    · simp only [hmodule, hname, Bool.false_eq_true, Bool.not_true, if_false, true_and,
        Except.ok.injEq]
      exact eq_comm
    · simp [hmodule, hname]

/-- A symbol as characters: stem, underscore, name, groups. -/
theorem toList_symbolOf (h : registry.symbolOf id = .ok symbol) :
    symbol.toList = (registry.stem id).toList ++ '_' :: id.name.toList
      ++ groups registry.delimiter id.paramTypes := by
  obtain ⟨_, _, rfl⟩ := symbolOf_eq_ok.1 h
  simp [toList_paramPart]

theorem mem_stem {c : Char} (hc : c ∈ (registry.stem id).toList) :
    c ∈ (Name.sanitize registry.spelling id.path).toList ∨ c = '_'
      ∨ c ∈ (Name.sanitize registry.spelling id.moduleName).toList := by
  rw [stem, String.toList_append, List.mem_append] at hc
  rcases hc with hpath | hmodule
  · unfold pathPart at hpath
    split at hpath
    · simp at hpath
    · rw [String.toList_append, List.mem_append] at hpath
      exact hpath.imp_right fun hjoin => .inl (by simpa using hjoin)
  · exact .inr (.inr hmodule)

/-- Behind the stem, a symbol has the characters of identifiers and the delimiter only. -/
theorem forall_mem_symbol {p : Char → Prop} (h : registry.symbolOf id = .ok symbol)
    (hstem : ∀ c ∈ (registry.stem id).toList, p c) (hpart : ∀ c, Name.isPart c → p c)
    (hdelimiter : p registry.delimiter) {c : Char} (hc : c ∈ symbol.toList) : p c := by
  rw [toList_symbolOf h, List.mem_append, List.mem_append, List.mem_cons] at hc
  rcases hc with (hstem' | rfl | hname) | hgroup
  · exact hstem c hstem'
  · exact hpart '_' (by decide)
  · exact hpart c (Name.isPart_of_isIdentifier (symbolOf_eq_ok.1 h).2.1 hname)
  · obtain ⟨ty, _, hty⟩ := List.mem_flatMap.1 hgroup
    rcases List.mem_cons.1 hty with rfl | hty
    · exact hdelimiter
    · exact hpart c (ty.isPart_name hty)

/-- A text that ends with an underscore and a name does not end with a group. -/
theorem name_ne_group {delimiter : Char} (hdelimiter : Name.isPart delimiter = false)
    {name : String} (hname : Name.isIdentifier name = true) (stem before : List Char)
    (ty : Scalar) : stem ++ '_' :: name.toList ≠ before ++ delimiter :: ty.name.toList := by
  have hunderscore : delimiter ≠ '_' := by
    rintro rfl
    simp [Name.isPart] at hdelimiter
  have hnotMem : delimiter ∉ name.toList := by
    intro hmem
    simp [Name.isPart_of_isIdentifier hname hmem] at hdelimiter
  intro heq
  rcases List.append_eq_append_iff.1 heq with ⟨middle, _, hright⟩ | ⟨middle, _, hright⟩
  · -- the delimiter would be the underscore or stand in the name
    cases middle with
    | nil => exact hunderscore (List.cons.inj hright).1.symm
    | cons c middle =>
      obtain ⟨_, htail⟩ := List.cons.inj hright
      exact hnotMem (by simp [htail])
  · -- the underscore would stand in the name of the type
    cases middle with
    | nil => exact hunderscore (List.cons.inj hright).1
    | cons c middle =>
      obtain ⟨_, htail⟩ := List.cons.inj hright
      simp [Scalar.not_isIdentifier_of_name htail] at hname

/-- The groups behind a name are determined by the text. -/
theorem groups_inj {delimiter : Char} (hdelimiter : Name.isPart delimiter = false)
    {name name' : String} (hname : Name.isIdentifier name = true)
    (hname' : Name.isIdentifier name' = true) {stem stem' : List Char}
    {types types' : List Scalar}
    (heq : stem ++ '_' :: name.toList ++ groups delimiter types
      = stem' ++ '_' :: name'.toList ++ groups delimiter types') : types = types' := by
  have hnotMem : ∀ ty : Scalar, delimiter ∉ ty.name.toList := by
    intro ty hmem
    simp [ty.isPart_name hmem] at hdelimiter
  -- from the last group to the first
  induction types using List.reverseRecOn generalizing types' with
  | nil =>
    rcases List.eq_nil_or_concat types' with rfl | ⟨before', ty', rfl⟩
    · rfl
    · rw [List.concat_eq_append, groups_concat, ← List.append_assoc] at heq
      simp only [groups, List.flatMap_nil, List.append_nil] at heq
      exact absurd heq (name_ne_group hdelimiter hname _ _ ty')
  | append_singleton before ty ih =>
    rw [groups_concat, ← List.append_assoc] at heq
    rcases List.eq_nil_or_concat types' with rfl | ⟨before', ty', rfl⟩
    · simp only [groups, List.flatMap_nil, List.append_nil] at heq
      exact absurd heq.symm (name_ne_group hdelimiter hname' _ _ ty)
    · rw [List.concat_eq_append, groups_concat, ← List.append_assoc] at heq
      obtain ⟨hbefore, hty⟩ := append_cons_inj_of_notMem (hnotMem ty) (hnotMem ty') heq
      rw [ih hbefore, Scalar.name_inj (String.toList_injective hty), List.concat_eq_append]

theorem paramTypes_inj (hdelimiter : Name.isPart registry.delimiter = false) {a b : FunctionId}
    (ha : registry.symbolOf a = .ok symbol) (hb : registry.symbolOf b = .ok symbol) :
    a.paramTypes = b.paramTypes := by
  have heq := toList_symbolOf ha
  rw [toList_symbolOf hb] at heq
  exact (groups_inj hdelimiter (symbolOf_eq_ok.1 hb).2.1 (symbolOf_eq_ok.1 ha).2.1 heq).symm

/-- In both spellings, with every valid delimiter, a symbol determines the types of the
parameters. So an overload with other types has a symbol too, and a different one. -/
theorem paramTypes_of_symbolOf {settings : Settings} {start : Registry}
    (hstart : ofSettings settings = .ok start) (ids : List FunctionId) {a b : FunctionId}
    (ha : (start.recordAll ids).symbolOf a = .ok symbol)
    (hb : (start.recordAll ids).symbolOf b = .ok symbol) :
    a.paramTypes = b.paramTypes
      ∧ ∀ types, types ≠ a.paramTypes → ∃ other,
        (start.recordAll ids).symbolOf { a with paramTypes := types } = .ok other
          ∧ other ≠ symbol := by
  have hdelimiter : Name.isPart (start.recordAll ids).delimiter = false := by
    obtain ⟨hcheck, rfl⟩ := ofSettings_ok hstart
    rw [(spelling_delimiter_recordAll _ ids).2]
    exact Settings.isPart_delimiter hcheck
  refine ⟨paramTypes_inj hdelimiter ha hb, fun types htypes => ?_⟩
  obtain ⟨hmodule, hname, _⟩ := symbolOf_eq_ok.1 ha
  obtain ⟨other, hother⟩ : ∃ other,
      (start.recordAll ids).symbolOf { a with paramTypes := types } = .ok other :=
    ⟨_, symbolOf_eq_ok.2 ⟨hmodule, hname, rfl⟩⟩
  refine ⟨other, hother, fun heq => htypes ?_⟩
  rw [heq] at hother
  exact paramTypes_inj hdelimiter hother ha

/-- With the hyphen as delimiter, which the path contains too: a path and a longer module
that give the same symbol. -/
theorem paramTypes_of_symbolOf_hyphen :
    ∃ start a b symbol, ofSettings { Settings.legacy with delimiter := '-' } = .ok start
      ∧ a ≠ b ∧ symbol = "x-u8_m_f-u8-f8_8"
      ∧ (start.recordAll [a, b]).symbolOf a = .ok symbol
      ∧ (start.recordAll [a, b]).symbolOf b = .ok symbol
      ∧ a.paramTypes = b.paramTypes
      ∧ ∀ types, types ≠ a.paramTypes → ∃ other,
        (start.recordAll [a, b]).symbolOf { a with paramTypes := types } = .ok other
          ∧ other ≠ symbol := by
  have hstart : ofSettings { Settings.legacy with delimiter := '-' }
      = .ok { spelling := .legacy, delimiter := '-' } := rfl
  let a : FunctionId := ⟨"x-u8", "m", "f", [.u8, .f8_8]⟩
  let b : FunctionId := ⟨"", "x-u8_m", "f", [.u8, .f8_8]⟩
  have ha : (recordAll { spelling := .legacy, delimiter := '-' } [a, b]).symbolOf a
      = .ok "x-u8_m_f-u8-f8_8" := by decide +kernel
  have hb : (recordAll { spelling := .legacy, delimiter := '-' } [a, b]).symbolOf b
      = .ok "x-u8_m_f-u8-f8_8" := by decide +kernel
  exact ⟨_, a, b, _, hstart, by decide, rfl, ha, hb, paramTypes_of_symbolOf hstart [a, b] ha hb⟩

end Registry

end ScalarC
