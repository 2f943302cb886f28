import ScalarC.Proofs.CText.OpBlocks
import ScalarC.Proofs.CText.StringLiteral
import ScalarC.Proofs.Name.FileScope

/-!
# String constants

Each printed text becomes a constant of the C file, with its length in bytes and a string
literal. The literal is read back as the bytes of the text, so the length is that of the
literal, and no text is accepted whose length does not fit 16 bits. No other line of the file
starts like a constant.
-/

namespace ScalarC

/-! ## Lengths -/

/-- The texts of the session have lengths of 16 bits. -/
def Session.ShortStrings (s : Session) : Prop :=
  ∀ text ∈ s.strings, text.utf8ByteSize ≤ 65535

theorem Session.shortStrings_relation (scope : Scope) :
    StepRelation scope fun s s' => s.ShortStrings → s'.ShortStrings where
  toExprRelation := relation_of_evaluates scope (fun h h' hshort => h' (h hshort))
    fun hevaluates hshort => by rwa [ShortStrings, hevaluates.strings]
  restored _ _ := id
  assignLocal h := by
    obtain ⟨_, _, _, rfl⟩ := Lower.assignLocal_ok.1 h
    exact id
  declareLocal h := by
    obtain ⟨_, _, rfl⟩ := Lower.declareLocal_ok.1 h
    exact id
  addString s text short hshort := by
    intro other hother
    rcases List.mem_append.1 hother with hother | hother
    · exact hshort other hother
    · obtain rfl := List.mem_singleton.1 hother
      exact short

/-- Parameters are no string constants. -/
theorem LowersParams.strings_eq {s s' : Session} {params : List Parameter}
    (h : LowersParams s params s') : s'.strings = s.strings := by
  induction h with
  | nil s => rfl
  | cons declares tail ih =>
    obtain ⟨_, _, rfl⟩ := Lower.declareParam_ok.1 declares
    exact ih

theorem Shared.Lowers.shortStrings {shared : Shared} {function : SourceFunction}
    {lowering : FunctionLowering} (h : shared.Lowers function lowering) {text : String}
    (htext : text ∈ lowering.function.strings) : text.utf8ByteSize ≤ 65535 := by
  rcases h.derives with ⟨symbol, _, _, rfl⟩ | ⟨_, h⟩
  · cases htext
  · cases h with
    | intro named params body returns =>
      refine (Session.shortStrings_relation _).lowersBlock body ?_ text htext
      intro other hother
      rw [params.strings_eq] at hother
      cases hother

/-! ## Initializers -/

namespace StringBody

/-- The text behind a character, with spaces in front of it dropped. -/
def expect? (c : Char) (text : List Char) : Option (List Char) :=
  match text.dropWhile (· == ' ') with
  | d :: rest => if d = c then some rest else none
  | [] => none

/-- A number, and the text behind it. -/
def readNumber? (text : List Char) : Option (Nat × List Char) :=
  let word := (text.dropWhile (· == ' ')).takeWhile Name.isPart
  match CExpr.constantOfWord? word with
  | some (.decimal n _) => some (n, (text.dropWhile (· == ' ')).drop word.length)
  | _ => none

/-- The number and the bytes of an initializer with a number and a string literal. -/
def readInitializer? (initializer : String) : Option (Nat × List UInt8) := do
  let text ← expect? '\x7b' (replaceTrigraphs initializer.toList)
  let (n, text) ← readNumber? text
  let text ← expect? ',' text
  let text ← expect? '"' text
  let (bytes, text) ← readBody? text
  let text ← expect? '\x7d' text
  if text = [] then some (n, bytes) else none

/-- The initializer of a text. -/
def initializer (text : String) : String :=
  "\x7b " ++ (CExpr.decimal text.utf8ByteSize true).text ++ ", \"" ++ escape text ++ "\" \x7d"

variable {c : Char} {text rest : List Char}

theorem expect?_cons (rest : List Char) (hc : c ≠ ' ') : expect? c (c :: rest) = some rest := by
  simp [expect?, hc]

theorem expect?_space (rest : List Char) (hc : c ≠ ' ') :
    expect? c (' ' :: c :: rest) = some rest := by
  simp [expect?, hc]

/-- A constant in front of a comma is read. -/
theorem readNumber?_decimal (n : Nat) (rest : List Char) :
    readNumber? (' ' :: ((CExpr.decimal n true).text.toList ++ ',' :: rest))
      = some (n, ',' :: rest) := by
  have hleaf := CExpr.isLeaf_decimal n true
  obtain ⟨first, word, hword⟩ := List.exists_cons_of_ne_nil hleaf.ne_nil
  have hspace : (first == ' ') = false := by
    have hpart := hleaf.isPart first (by simp [hword])
    by_contra hfirst
    obtain rfl : first = ' ' := by simpa using hfirst
    exact absurd hpart (by decide)
  have hdrop : (' ' :: ((CExpr.decimal n true).text.toList ++ ',' :: rest)).dropWhile (· == ' ')
      = (CExpr.decimal n true).text.toList ++ ',' :: rest := by
    simp [hword, hspace]
  have htake : ((CExpr.decimal n true).text.toList ++ ',' :: rest).takeWhile Name.isPart
      = (CExpr.decimal n true).text.toList := by
    have hcomma : Name.isPart ',' = false := by decide
    rw [List.takeWhile_append_of_pos hleaf.isPart]
    simp [hcomma]
  simp [readNumber?, hdrop, htake, CExpr.constantOfWord?_decimal]

theorem question_notMem_decimal (n : Nat) (isUnsigned : Bool) :
    '?' ∉ (CExpr.decimal n isUnsigned).text.toList := by
  intro hmem
  exact absurd ((CExpr.isLeaf_decimal n isUnsigned).isPart '?' hmem) (by decide)

/-- The initializer of a text is read as the number of its bytes and the bytes. -/
theorem readInitializer?_initializer (text : String) :
    readInitializer? (initializer text) = some (text.utf8ByteSize, utf8Bytes text) := by
  have hchars : (initializer text).toList
      = ('\x7b' :: ' ' :: ((CExpr.decimal text.utf8ByteSize true).text.toList ++ [',', ' ', '"']))
        ++ ((escape text).toList ++ '"' :: [' ', '\x7d']) := by
    simp [initializer]
  have hquestion : '?' ∉ '\x7b' :: ' '
      :: ((CExpr.decimal text.utf8ByteSize true).text.toList ++ [',', ' ', '"']) := by
    simp [question_notMem_decimal]
  have hclosing : replaceTrigraphs [' ', '\x7d'] = [' ', '\x7d'] := by decide
  rw [readInitializer?, hchars, replaceTrigraphs_append hquestion]
  simp [expect?_cons, expect?_space, readNumber?_decimal, readBody?_escape, hclosing]

end StringBody

/-! ## The constants of a file -/

namespace LoweredFunction

/-- The lines of the string constants, with their initializers. -/
theorem exists_of_mem_stringLines {code : LoweredFunction} {line : String}
    (h : line ∈ code.stringLines) :
    ∃ index text, code.strings[index]? = some text
      ∧ line = "static const String " ++ Name.ofString code.symbol index ++ " = "
        ++ StringBody.initializer text ++ ";" := by
  obtain ⟨⟨text, index⟩, hmem, rfl⟩ := List.mem_map.1 h
  refine ⟨index, text, List.mem_zipIdx_iff_getElem?.1 hmem, ?_⟩
  rw [← String.toList_inj]
  simp [StringBody.initializer, CExpr.text, CExpr.suffix]

end LoweredFunction

/-! ## Which lines are constants -/

/-- Whether a line defines a string constant. -/
def isStringConstant (line : String) : Bool :=
  "static const String ".toList.isPrefixOf line.toList

/-- The first character tells the other lines of a file from string constants. -/
theorem isStringConstant_of_head {line : String} (h : line.toList.head? ≠ some 's') :
    isStringConstant line = false := by
  rw [isStringConstant]
  cases hline : line.toList with
  | nil => rfl
  | cons c rest =>
    have hc : 's' ≠ c := by
      rintro rfl
      simp [hline] at h
    simp [List.isPrefixOf, hc]

namespace Preamble

theorem isStringConstant_prototype (routine : Routine) (rest : String) :
    isStringConstant (routine.prototype ++ rest) = false :=
  isStringConstant_of_head (by simp [Routine.prototype])

theorem isStringConstant_routineDefinition (routine : Routine) :
    ∀ line ∈ routineDefinition routine, isStringConstant line = false := by
  have hbody : ∀ line ∈ routineBody routine, line.toList.head? = some ' ' := by
    cases routine <;> simp [routineBody, fixedBody]
  have hclosing : ∀ line ∈ ["\x7d", ""], isStringConstant line = false := by decide
  refine List.forall_mem_cons.2 ⟨isStringConstant_prototype routine _, ?_⟩
  refine List.forall_mem_append.2 ⟨fun line hline => ?_, hclosing⟩
  exact isStringConstant_of_head (by simp [hbody line hline])

theorem isStringConstant_types : ∀ line ∈ types, isStringConstant line = false := by
  have hshift (ty : Scalar) (line : String) (h : shiftDefinition ty = some line) :
      line.toList.head? ≠ some 's' := by
    obtain ⟨bits, _, rfl⟩ := Option.map_eq_some_iff.1 h
    simp
  have hfirst : ∀ line ∈ types, line.toList.head? ≠ some 's' := by
    simp only [types, List.forall_mem_cons, List.forall_mem_append, List.forall_mem_map,
      List.forall_mem_filterMap]
    simpa [typedef] using fun ty _ => hshift ty
  exact fun line hline => isStringConstant_of_head (hfirst line hline)

theorem isStringConstant_routines (mode : RoutineMode) :
    ∀ line ∈ routines mode, isStringConstant line = false := by
  have hempty : ∀ line ∈ [""], isStringConstant line = false := by decide
  cases mode with
  | linked =>
    refine List.forall_mem_cons.2 ⟨by decide, List.forall_mem_append.2 ⟨?_, hempty⟩⟩
    exact List.forall_mem_map.2 fun routine _ => isStringConstant_prototype routine _
  | included =>
    refine List.forall_mem_cons.2 ⟨by decide, List.forall_mem_append.2 ⟨?_, hempty⟩⟩
    exact List.forall_mem_flatMap.2 fun routine _ => isStringConstant_routineDefinition routine

theorem isStringConstant_lines (mode : RoutineMode) :
    ∀ line ∈ lines mode, isStringConstant line = false := by
  have hincludes : ∀ line ∈ includes, isStringConstant line = false := by decide
  refine List.forall_mem_append.2 ⟨?_, isStringConstant_routines mode⟩
  exact List.forall_mem_append.2 ⟨hincludes, isStringConstant_types⟩

end Preamble

theorem head?_returnTypeText (ty : Option Scalar) (rest : String) :
    (returnTypeText ty ++ rest).toList.head? ≠ some 's' := by
  rcases ty with _ | ty
  · simp [returnTypeText]
  · cases ty <;> simp [returnTypeText, Scalar.name]

namespace LoweredFunction

variable {code : LoweredFunction}

theorem isStringConstant_of_mem_stringLines {line : String} (h : line ∈ code.stringLines) :
    isStringConstant line = true := by
  obtain ⟨index, text, _, rfl⟩ := exists_of_mem_stringLines h
  simp [isStringConstant]

theorem isStringConstant_signatureText (code : LoweredFunction) (rest : String) :
    isStringConstant (code.signatureText ++ rest) = false := by
  simp only [signatureText, String.append_assoc]
  exact isStringConstant_of_head (head?_returnTypeText code.returnType _)

theorem isStringConstant_definition {settings : Settings} {lines : List String}
    (h : code.definition settings = .ok lines) :
    ∀ line ∈ lines, isStringConstant line = false := by
  simp only [definition, bind_eq_ok, pure_eq_ok] at h
  obtain ⟨body, hbody, rfl⟩ := h
  have hindented (line : String) (hline : "    ".toList <+: line.toList) :
      isStringConstant line = false := by
    obtain ⟨rest, hrest⟩ := hline
    exact isStringConstant_of_head (by simp [← hrest])
  have hheader : ∀ line ∈ code.headerLines settings, isStringConstant line = false := by
    intro line hline
    refine hindented line ?_
    simp only [headerLines, declaration, unused, List.mem_append, List.mem_map, or_assoc] at hline
    rcases hline with ⟨_, _, rfl⟩ | ⟨_, _, rfl⟩ | ⟨_, _, rfl⟩ | ⟨_, _, rfl⟩ <;> simp
  have hbodyLines line (hline : line ∈ body) : isStringConstant line = false :=
    hindented line (isPrefix_of_opsLines code.ops hbody line hline)
  have hcomment : isStringConstant ("// " ++ code.name) = false :=
    isStringConstant_of_head (by simp)
  have hseparator : ∀ line ∈ (if (code.headerLines settings).isEmpty || code.ops.isEmpty then []
      else [""]), isStringConstant line = false := by
    split <;> simp [isStringConstant_of_head]
  have hopening : ∀ line ∈ ["// " ++ code.name, code.signatureText ++ " \x7b"],
      isStringConstant line = false := by
    simp [hcomment, isStringConstant_signatureText]
  have hclosing : ∀ line ∈ ["\x7d"], isStringConstant line = false := by decide
  simp only [List.forall_mem_append]
  exact ⟨⟨⟨⟨hopening, hheader⟩, hseparator⟩, hbodyLines⟩, hclosing⟩

end LoweredFunction

namespace LoweredUnit

variable {settings : Settings} {unit : LoweredUnit} {lines : List String}

theorem isStringConstant_bannerLines (settings : Settings) (unit : LoweredUnit) :
    ∀ line ∈ unit.bannerLines settings, isStringConstant line = false := by
  have hname : isStringConstant ("// Unit: " ++ unit.name) = false :=
    isStringConstant_of_head (by simp)
  unfold bannerLines
  split
  · simp only [List.forall_mem_cons, hname, true_and]
    decide
  · exact List.forall_mem_nil _

theorem isStringConstant_prototypeSection (unit : LoweredUnit) :
    ∀ line ∈ unit.prototypeSection, isStringConstant line = false := by
  have hfunction (code : LoweredFunction) : isStringConstant (code.signatureText ++ ";") = false :=
    LoweredFunction.isStringConstant_signatureText code _
  have halias (signature : Signature) : isStringConstant (signature.prototype ++ ";") = false := by
    simp only [Signature.prototype, String.append_assoc]
    exact isStringConstant_of_head (head?_returnTypeText _ _)
  have hcomment : isStringConstant "// Function declarations" = false := by decide
  have hempty : isStringConstant "" = false := by decide
  simp only [prototypeSection]
  split
  · exact List.forall_mem_nil _
  · simp only [List.forall_mem_append, List.forall_mem_cons, List.forall_mem_map, hfunction, halias]
    simp [hcomment, hempty]

theorem isStringConstant_definitionLines {functions : List LoweredFunction}
    (h : definitionLines settings functions = .ok lines) :
    ∀ line ∈ lines, isStringConstant line = false := by
  induction functions generalizing lines with
  | nil =>
    cases h
    exact List.forall_mem_nil _
  | cons code rest ih =>
    rw [definitionLines] at h
    split at h
    · simp only [bind_eq_ok, pure_eq_ok] at h
      obtain ⟨_, hfirst, tail, htail, rfl⟩ := h
      cases hfirst
      exact ih htail
    · simp only [bind_eq_ok, pure_eq_ok] at h
      obtain ⟨first, hfirst, tail, htail, rfl⟩ := h
      obtain ⟨definition, hdefinition, rfl⟩ := map_eq_ok.1 hfirst
      have hempty : ∀ line ∈ [""], isStringConstant line = false := by decide
      simp only [List.forall_mem_append]
      exact ⟨⟨LoweredFunction.isStringConstant_definition hdefinition, hempty⟩, ih htail⟩

theorem isStringConstant_mainLines (unit : LoweredUnit) :
    ∀ line ∈ unit.mainLines, isStringConstant line = false := by
  have hresult (symbol : String) :
      isStringConstant ("    return (int)" ++ symbol ++ "();") = false :=
    isStringConstant_of_head (by simp)
  have hcall (symbol : String) : isStringConstant ("    " ++ symbol ++ "();") = false :=
    isStringConstant_of_head (by simp)
  unfold mainLines
  split
  · exact List.forall_mem_nil _
  · split
    · simp only [List.forall_mem_append, List.forall_mem_cons, hresult, true_and]
      decide
    · simp only [List.forall_mem_append, List.forall_mem_cons, hcall, true_and]
      decide

theorem filter_stringSection (unit : LoweredUnit) :
    unit.stringSection.filter isStringConstant = unit.functions.flatMap (·.stringLines) := by
  have hconstants : ∀ line ∈ unit.functions.flatMap (·.stringLines),
      isStringConstant line = true := by
    intro line hline
    obtain ⟨code, _, hline⟩ := List.mem_flatMap.1 hline
    exact LoweredFunction.isStringConstant_of_mem_stringLines hline
  have hcomment : isStringConstant "// String constants" = false := by decide
  have hempty : isStringConstant "" = false := by decide
  simp only [stringSection]
  split
  · rename_i hnone
    simpa using hnone
  · simp [List.filter_append, hcomment, hempty, List.filter_eq_self.2 hconstants]

/-- Of the lines of a file exactly those of its functions define string constants. -/
theorem filter_fileLines (h : unit.fileLines settings = .ok lines) :
    lines.filter isStringConstant = unit.functions.flatMap (·.stringLines) := by
  have hnone {lines : List String} (h : ∀ line ∈ lines, isStringConstant line = false) :
      lines.filter isStringConstant = [] := by
    simpa [List.filter_eq_nil_iff] using h
  simp only [fileLines, bind_eq_ok, pure_eq_ok] at h
  obtain ⟨definitions, hdefinitions, rfl⟩ := h
  simp only [List.filter_append, hnone (isStringConstant_bannerLines settings unit),
    hnone (Preamble.isStringConstant_lines settings.routines), filter_stringSection,
    hnone (isStringConstant_prototypeSection unit),
    hnone (isStringConstant_definitionLines hdefinitions), hnone (isStringConstant_mainLines unit),
    List.nil_append, List.append_nil]

end LoweredUnit
/-- String constants decode to the bytes of their texts. The escaped form of any text is
printable, and C reads it up to the quote behind it as the bytes of the text in UTF-8. The lines
with constants in the file of an accepted unit are those of its functions, in order. So each
constant in the file has as its length the number of bytes that its literal stands for, and
these are at most 65535. -/
theorem string_constants_decode :
    (∀ text : String,
      (∀ c ∈ (StringBody.escape text).toList, StringBody.isPrintable c = true)
      ∧ ∀ rest, StringBody.readBody?
          (StringBody.replaceTrigraphs ((StringBody.escape text).toList ++ '"' :: rest))
        = some (StringBody.utf8Bytes text, StringBody.replaceTrigraphs rest))
    ∧ ∀ (unit : SourceUnit) (settings : Settings) (lowered : LoweredUnit),
      unit.lower settings = .ok lowered →
      ∃ lines, lowered.emit settings = .ok (unlines lines)
        ∧ lines.filter isStringConstant = lowered.functions.flatMap (·.stringLines)
        ∧ ∀ code ∈ lowered.functions, ∀ line ∈ code.stringLines, line ∈ lines
          ∧ ∃ index text initializer, code.strings[index]? = some text
            ∧ line = "static const String " ++ Name.ofString code.symbol index ++ " = "
              ++ initializer ++ ";"
            ∧ StringBody.readInitializer? initializer
              = some ((StringBody.utf8Bytes text).length, StringBody.utf8Bytes text)
            ∧ (StringBody.utf8Bytes text).length ≤ 65535 := by
  refine ⟨fun text => ⟨fun c => StringBody.isPrintable_escape, StringBody.readBody?_escape text⟩,
    ?_⟩
  intro unit settings lowered h
  obtain ⟨written, hwritten⟩ := SourceUnit.exists_emit_of_lower h settings
  simp only [LoweredUnit.emit, bind_eq_ok, pure_eq_ok] at hwritten ⊢
  obtain ⟨lines, hlines, rfl⟩ := hwritten
  have hconstants := LoweredUnit.filter_fileLines hlines
  refine ⟨lines, ⟨lines, hlines, rfl⟩, hconstants, ?_⟩
  intro code hcode line hline
  have hmem : line ∈ lines.filter isStringConstant :=
    hconstants ▸ List.mem_flatMap.2 ⟨code, hcode, hline⟩
  refine ⟨(List.mem_filter.1 hmem).1, ?_⟩
  obtain ⟨index, text, htext, hform⟩ := LoweredFunction.exists_of_mem_stringLines hline
  obtain ⟨shared, f, lowering, _, hlowers, rfl⟩ := SourceUnit.lower_lowers h hcode
  have hshort := hlowers.shortStrings (List.mem_of_getElem? htext)
  refine ⟨index, text, _, htext, hform, ?_⟩
  rw [StringBody.length_utf8Bytes]
  exact ⟨StringBody.readInitializer?_initializer text, hshort⟩

/-- Prints what looks like a trigraph, a control character in front of a digit, a letter of two
bytes, and a quote. -/
def Sample.marks : SourceUnit where
  name := "marks"
  functions :=
    [{ path := ""
       moduleName := "m"
       name := "f"
       body := [.print (.text "??=\x017é\"")] }]

theorem string_constants_decode_marks :
    ∃ lowered lines, Sample.marks.lower {} = .ok lowered
      ∧ lowered.emit {} = .ok (unlines lines)
      ∧ "static const String m_f_str0 = \x7b 8u, \"\\?\\?=\\0017\\303\\251\\\"\" \x7d;" ∈ lines
      ∧ StringBody.readBody? (StringBody.replaceTrigraphs
          ((StringBody.escape "??=\x017é\"").toList ++ ['"']))
        = some ([63, 63, 61, 1, 55, 195, 169, 34], []) := by
  have hlower : (Sample.marks.lower {}).toOption.map (·.functions.flatMap (·.stringLines))
      = some ["static const String m_f_str0 = \x7b 8u, \"\\?\\?=\\0017\\303\\251\\\"\" \x7d;"] := by
    decide +kernel
  cases h : Sample.marks.lower {} with
  | error cause => simp [h, Except.toOption] at hlower
  | ok lowered =>
    simp only [h, Except.toOption, Option.map_some, Option.some.injEq] at hlower
    obtain ⟨hdecode, hfile⟩ := string_constants_decode
    obtain ⟨lines, hemit, _, hlines⟩ := hfile _ _ lowered h
    obtain ⟨code, hcode, hline⟩ := List.mem_flatMap.1 (hlower ▸ List.mem_singleton_self _)
    exact ⟨lowered, lines, rfl, hemit, (hlines code hcode _ hline).1, (hdecode _).2 []⟩

end ScalarC
