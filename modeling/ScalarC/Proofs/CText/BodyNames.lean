import ScalarC.Proofs.CText.FunctionText

/-!
# Names in the text of a body

The registers and locals that the text of a body names are those that its operations mention.
The text is cut into words; a word that starts like a register or a local is one of them, or it
is the name of a function or of a string constant that the body refers to. The types, constants
and macros in expressions and the keywords and routines of statements start otherwise.

## Main definitions

* `Line.words`: the words of a text.
* `Line.Names`: some line has the name as a word.
-/

namespace ScalarC

/-! ## Words -/

namespace Line

/-- The words of a text: the longest runs of word characters, in order. -/
def words (text : List Char) : List (List Char) :=
  (text.splitOnP (!isWordChar ·)).filter (!·.isEmpty)

/-- Whether a word starts like a register or a local. -/
def isVariable (word : List Char) : Bool :=
  word.take 2 == ['v', '_'] || word.head? == some 'r' && word.tail.head?.any Char.isDigit

/-- Some line has the name as a word. -/
def Names (lines : List String) (name : String) : Prop :=
  ∃ line ∈ lines, name.toList ∈ words line.toList

example : (words "    r5 = (u8)(r3 + v_n);".toList).map String.ofList
    = ["r5", "u8", "r3", "v_n"] := by
  decide

variable {word first rest : List Char} {c : Char} {name : String}

@[simp] theorem words_nil : words [] = [] := by
  simp [words, List.splitOnP_nil]

theorem words_append_cons (first : List Char) (hc : isWordChar c = false) (rest : List Char) :
    words (first ++ c :: rest) = words first ++ words rest := by
  rw [words, List.splitOnP_append_cons first rest (by simpa using hc), List.filter_append]
  rfl

theorem words_cons (hc : isWordChar c = false) (rest : List Char) :
    words (c :: rest) = words rest := by
  simpa using words_append_cons [] hc rest

theorem IsWord.words_eq (h : IsWord word) : words word = [word] := by
  have hchars : ∀ c ∈ word, (!isWordChar c) = false := fun c hc => by simp [h.chars c hc]
  rw [words, List.splitOnP_eq_singleton hchars]
  simp [h.ne_nil]

theorem IsWord.words_append_cons (h : IsWord word) (hc : isWordChar c = false)
    (rest : List Char) : words (word ++ c :: rest) = word :: words rest := by
  rw [Line.words_append_cons word hc rest, h.words_eq, List.singleton_append]

theorem IsWord.ofString {symbol : String} (h : IsWord symbol.toList) (index : Nat) :
    IsWord (Name.ofString symbol index).toList := by
  rw [Name.toList_ofString]
  refine ⟨by simp, List.forall_mem_append.2 ⟨h.chars, List.forall_mem_cons.2 ⟨by decide, ?_⟩⟩⟩
  have hmark : "str".toList.all isWordChar = true := by decide
  refine List.forall_mem_append.2 ⟨List.all_eq_true.1 hmark, fun c hc => ?_⟩
  have hdigit := Nat.isDigit_of_mem_toDigits (by decide) (by decide) hc
  simp [isWordChar, Name.isPart, Char.isAlphanum, hdigit]

theorem words_indent (h : first.all (· == ' ') = true) (rest : List Char) :
    words (first ++ rest) = words rest := by
  induction first with
  | nil => rfl
  | cons c first ih =>
    obtain ⟨rfl, hfirst⟩ : c = ' ' ∧ first.all (· == ' ') = true := by simpa using h
    rw [List.cons_append, words_cons (by decide), ih hfirst]

theorem isVariable_register (r : Register) : isVariable r.name.toList = true := by
  rw [Register.toList_name]
  cases hdigits : Nat.toDigits 10 r.number with
  | nil => exact absurd hdigits (List.ne_nil_of_length_pos Nat.length_toDigits_pos)
  | cons d digits =>
    have hdigit : d.isDigit = true :=
      Nat.isDigit_of_mem_toDigits (by decide) (by decide) (hdigits ▸ List.mem_cons_self)
    simp [isVariable, hdigit]

theorem isVariable_ofLocal (name : String) : isVariable (Name.ofLocal name).toList = true := by
  simp [isVariable, Name.toList_ofLocal]

theorem exists_cons_of_isVariable (h : isVariable word = true) :
    ∃ c rest, word = c :: rest ∧ (c = 'v' ∨ c = 'r') := by
  cases word with
  | nil => cases h
  | cons c rest =>
    refine ⟨c, rest, rfl, ?_⟩
    simp only [isVariable, Bool.or_eq_true, Bool.and_eq_true, beq_iff_eq] at h
    rcases h with h | ⟨h, _⟩
    · exact .inl (List.cons.inj h).1
    · exact .inr (Option.some.inj h)

theorem notMem_words {text : List Char} (htext : (words text).any isVariable = false)
    (hname : isVariable name.toList = true) : name.toList ∉ words text := by
  intro hmem
  have hany := List.any_eq_true.2 ⟨_, hmem, hname⟩
  rw [htext] at hany
  cases hany

/-- A register between texts without variables. -/
theorem mem_words_around {before after : List Char} {d : Char} (hc : isWordChar c = false)
    (hd : isWordChar d = false) (hbefore : (words before).any isVariable = false)
    (hafter : (words after).any isVariable = false) (hname : isVariable name.toList = true)
    (r : Register) :
    name.toList ∈ words (before ++ c :: (r.name.toList ++ d :: after)) ↔ name = r.name := by
  rw [words_append_cons _ hc, (isWord_register r).words_append_cons hd, List.mem_append,
    or_iff_right (notMem_words hbefore hname), List.mem_cons,
    or_iff_left (notMem_words hafter hname), String.toList_inj]

@[simp] theorem names_nil : ¬Names [] name := by
  simp [Names]

@[simp] theorem names_cons {line : String} {lines : List String} :
    Names (line :: lines) name ↔ name.toList ∈ words line.toList ∨ Names lines name := by
  simp [Names]

@[simp] theorem names_append {lines lines' : List String} :
    Names (lines ++ lines') name ↔ Names lines name ∨ Names lines' name := by
  simp [Names, or_and_right, exists_or]

end Line

/-! ## Expressions -/

namespace CExpr

open Line

variable {e : CExpr} {name : String}

/-- Constants start with digits, and macros with capitals. -/
theorem IsLeaf.mem_mentions_iff (h : e.IsLeaf) (hname : isVariable name.toList = true) :
    name ∈ e.mentions ↔ name = e.text := by
  obtain ⟨c, rest, hcons, hc⟩ := exists_cons_of_isVariable hname
  have hlower : name.toList.head?.any Char.isLower = true := by
    rcases hc with rfl | rfl <;> simp [hcons]
  have hdigit : ¬name.toList.head?.any Char.isDigit = true := by
    rcases hc with rfl | rfl <;> simp [hcons]
  have htokens := h.tokens
  cases e with
  | name s =>
    simp only [mentions, text]
    split
    · simp
    · rename_i hs
      simp only [List.not_mem_nil, false_iff]
      rintro rfl
      exact hs hlower
  | decimal | hexadecimal =>
    refine iff_of_false List.not_mem_nil fun htext => ?_
    have hword := h.ofWord?
    rw [← htext, CExpr.ofWord?, if_neg hdigit] at hword
    split at hword <;> cases hword
  | binary op lhs rhs =>
    have hoperator : Token.operator op ∈ (binary op lhs rhs).tokens := by simp [CExpr.tokens]
    simp [htokens] at hoperator
  | _ => simp [CExpr.tokens] at htokens

/-- No type is spelled like a variable. -/
theorem notMem_words_type (ty : CType) (hname : isVariable name.toList = true) :
    name.toList ∉ words ty.text.toList := by
  have htypes : ∀ ty : CType, (words ty.text.toList).any isVariable = false := by
    rintro (ty | _ | _ | _)
    · cases ty <;> decide
    all_goals decide
  exact notMem_words (htypes ty) hname

theorem words_token (op : Operator) : words op.token.toList = [] := by
  cases op <;> decide

/-- The variables among the words of an expression are those that it mentions. -/
theorem Spelled.mem_words_iff (h : e.Spelled) (hname : isVariable name.toList = true) :
    name.toList ∈ words e.text.toList ↔ name ∈ e.mentions := by
  induction h with
  | leaf hleaf =>
    rw [(isWord_of_isPart hleaf.ne_nil hleaf.isPart).words_eq, hleaf.mem_mentions_iff hname]
    simp [String.toList_inj]
  | @negate e _ _ _ ih =>
    have htext : (CExpr.negate e).text.toList = '-' :: e.text.toList := by simp [text]
    rw [htext, words_cons (by decide), ih, mentions]
  | @paren e _ ih =>
    have htext : (CExpr.paren e).text.toList = '(' :: (e.text.toList ++ [')']) := by simp [text]
    rw [htext, words_cons (by decide), words_append_cons _ (by decide), words_nil,
      List.append_nil, ih, mentions]
  | @cast e ty _ _ ih =>
    have htext : (CExpr.cast ty e).text.toList
        = '(' :: (ty.text.toList ++ ')' :: e.text.toList) := by
      simp [text]
    rw [htext, words_cons (by decide), words_append_cons _ (by decide), List.mem_append,
      or_iff_right (notMem_words_type ty hname), ih, mentions]
  | @binary lhs rhs op _ _ _ _ ihl ihr =>
    have htext : (CExpr.binary op lhs rhs).text.toList
        = lhs.text.toList ++ ' ' :: (op.token.toList ++ ' ' :: rhs.text.toList) := by
      simp [text]
    rw [htext, words_append_cons _ (by decide), words_append_cons _ (by decide), words_token,
      List.nil_append, List.mem_append, ihl, ihr, mentions, List.mem_append]

end CExpr

/-! ## Operations -/

namespace LoweredFunction

open Line

variable {code : LoweredFunction} {indent name : String} {lines : List String}

/-- The names that the lines of an operation hold, apart from the operations nested in it: those
of its registers and locals, and that of the function or string constant it refers to. -/
def namesOf (code : LoweredFunction) (op : Op) : List String :=
  (op.dest?.toList ++ op.operands).map Register.name
    ++ (op.loaded?.toList ++ op.stored?.toList).map Name.ofLocal ++ (code.reference? op).toList

theorem isVariable_mentioned (h : name ∈ code.mentioned) : isVariable name.toList = true := by
  rcases List.mem_append.1 h with h | h
  · obtain ⟨r, _, rfl⟩ := List.mem_map.1 h
    exact isVariable_register r
  · obtain ⟨x, _, rfl⟩ := List.mem_map.1 h
    exact isVariable_ofLocal x

theorem exists_mem_namesOf_iff (code : LoweredFunction) :
    (∃ op ∈ Op.nestedAll code.ops, name ∈ code.namesOf op)
      ↔ name ∈ code.mentioned ∨ name ∈ code.references := by
  simp only [namesOf, mentioned, references, Op.dests, Op.reads, Op.loads, Op.stores,
    List.mem_append, List.mem_map, List.mem_filterMap, List.mem_flatMap, Option.mem_toList]
  grind

theorem words_intercalate (pieces : List (List Char)) :
    words ([','].intercalate pieces) = pieces.flatMap words := by
  induction pieces with
  | nil => simp
  | cons first rest ih =>
    cases rest with
    | nil => simp
    | cons second rest =>
      rw [List.intercalate_cons_cons, List.append_assoc, List.singleton_append,
        words_append_cons _ (by decide), ih]
      rfl

theorem mem_words_argsText (args : List Register) :
    name.toList ∈ words (Op.argsText args).toList ↔ ∃ r ∈ args, r.name = name := by
  cases args with
  | nil => simp [Op.argsText]
  | cons first rest =>
    have hword (r : Register) : words r.name.toList = [r.name.toList] :=
      (isWord_register r).words_eq
    have hblank (r : Register) : words (' ' :: r.name.toList) = [r.name.toList] := by
      rw [words_cons (by decide), hword]
    rw [Op.toList_argsText, words_intercalate]
    simp [List.flatMap_map, hword, hblank, String.toList_inj, eq_comm]

theorem mem_words_call {callee : String} (hcallee : IsWord callee.toList) (args : String) :
    name.toList ∈ words (callee ++ "(" ++ args ++ ");").toList
      ↔ name = callee ∨ name.toList ∈ words args.toList := by
  have htext : (callee ++ "(" ++ args ++ ");").toList
      = callee.toList ++ '(' :: (args.toList ++ ')' :: [';']) := by
    simp
  have hclosing : words [';'] = [] := by decide
  rw [htext, hcallee.words_append_cons (by decide), words_append_cons _ (by decide), hclosing,
    List.append_nil, List.mem_cons, String.toList_inj]

theorem mem_words_printArgText (hsymbol : IsWord code.symbol.toList) (routine : Routine)
    (arg : PrintArg) :
    name.toList ∈ words (code.printArgText arg).toList
      ↔ name ∈ code.namesOf (.print routine arg) := by
  cases arg with
  | nothing => exact iff_of_false List.not_mem_nil List.not_mem_nil
  | register source =>
    change _ ↔ name ∈ [source.name]
    simp [printArgText, (isWord_register source).words_eq, String.toList_inj]
  | string index =>
    have hstring := hsymbol.ofString index
    have htext : (code.printArgText (.string index)).toList
        = '&' :: (Name.ofString code.symbol index).toList := by
      simp [printArgText]
    change _ ↔ name ∈ [Name.ofString code.symbol index]
    rw [htext, words_cons (by decide), hstring.words_eq]
    simp [String.toList_inj]

theorem names_indented (hindent : indent.toList.all (· == ' ') = true) (text : String) :
    Names [indent ++ text] name ↔ name.toList ∈ words text.toList := by
  rw [names_cons, or_iff_left names_nil, String.toList_append, words_indent hindent]

theorem names_assigned {target : String} (hindent : indent.toList.all (· == ' ') = true)
    (htarget : IsWord target.toList) (value : String) :
    Names [indent ++ target ++ " = " ++ value] name
      ↔ name = target ∨ name.toList ∈ words value.toList := by
  have htext : (target ++ " = " ++ value).toList
      = target.toList ++ ' ' :: '=' :: ' ' :: value.toList := by
    simp
  rw [String.append_assoc, String.append_assoc, names_indented hindent, ← String.append_assoc,
    htext, htarget.words_append_cons (by decide), words_cons (by decide), words_cons (by decide),
    List.mem_cons, String.toList_inj]

theorem names_assignment {target : String} {value : CExpr}
    (hindent : indent.toList.all (· == ' ') = true) (htarget : IsWord target.toList)
    (hvalue : value.Spelled) (hname : isVariable name.toList = true) :
    Names (assignment indent target value) name ↔ name = target ∨ name ∈ value.mentions := by
  have hline : assignment indent target value
      = [indent ++ target ++ " = " ++ (value.text ++ ";")] := by
    simp [assignment, String.append_assoc]
  have hwords : words (value.text ++ ";").toList = words value.text.toList := by
    have htext : (value.text ++ ";").toList = value.text.toList ++ [';'] := by simp
    rw [htext, words_append_cons _ (by decide), words_nil, List.append_nil]
  rw [hline, names_assigned hindent htarget, hwords, hvalue.mem_words_iff hname]

/-- The line of an operation without blocks holds the names of its registers and locals and of
what it refers to, and nothing else that is spelled like a variable. -/
theorem names_opLines {op : Op} (hindent : indent.toList.all (· == ' ') = true)
    (hsymbol : IsWord code.symbol.toList) (hlegible : op.Legible) (hblocks : op.hasBlocks = false)
    (h : code.opLines indent op = .ok lines) (hname : isVariable name.toList = true) :
    Names lines name ↔ name ∈ code.namesOf op := by
  cases op with
  | loadConst dest value =>
    cases h
    rw [names_assignment hindent (isWord_register dest) (CExpr.spelled_literal value) hname]
    change _ ↔ name ∈ [dest.name]
    simp [CExpr.mentions_literal]
  | loadLocal dest x =>
    cases h
    rw [names_assignment hindent (isWord_register dest)
      (.leaf (CExpr.isVariable_ofLocal hlegible).isLeaf) hname]
    change _ ↔ name ∈ [dest.name, Name.ofLocal x]
    simp [CExpr.mentions_ofLocal]
  | copy dest src | cast dest src =>
    simp only [opLines, bind_eq_ok, pure_eq_ok] at h
    obtain ⟨source, _, target, _, rfl⟩ := h
    refine (names_assignment hindent (isWord_register dest)
      (CExpr.spelled_convert (CExpr.spelled_register src) rfl) hname).trans ?_
    change _ ↔ name ∈ [dest.name, src.name]
    simp [CExpr.mentions_convert, CExpr.mentions_register]
  | storeLocal x src =>
    simp only [opLines, bind_eq_ok, pure_eq_ok] at h
    obtain ⟨target, _, source, _, rfl⟩ := h
    refine (names_assignment hindent (isWord_ofLocal hlegible)
      (CExpr.spelled_convert (CExpr.spelled_register src) rfl) hname).trans ?_
    change _ ↔ name ∈ [src.name, Name.ofLocal x]
    simp [CExpr.mentions_convert, CExpr.mentions_register, or_comm]
  | binary dest op lhs rhs =>
    simp only [opLines, bind_eq_ok, pure_eq_ok] at h
    obtain ⟨source, _, target, _, rfl⟩ := h
    refine (names_assignment hindent (isWord_register dest)
      (CExpr.spelled_arithmetic (CExpr.spelled_register lhs) (CExpr.spelled_register rhs) rfl rfl)
      hname).trans ?_
    change _ ↔ name ∈ [dest.name, lhs.name, rhs.name]
    simp [CExpr.mentions_arithmetic, CExpr.mentions_register]
  | call dest callee args =>
    have hcall : name.toList ∈ words (callee ++ "(" ++ Op.argsText args ++ ");").toList
        ↔ name = callee ∨ ∃ r ∈ args, r.name = name := by
      rw [mem_words_call hlegible.isWord, mem_words_argsText]
    cases dest with
    | none =>
      cases h
      refine ((names_indented hindent _).trans hcall).trans ?_
      simp [namesOf, Op.dest?, Op.operands, Op.loaded?, Op.stored?, reference?, or_comm]
    | some dest =>
      cases h
      refine (names_assigned hindent (isWord_register dest) _).trans ?_
      refine (or_congr_right hcall).trans ?_
      simp [namesOf, Op.dest?, Op.operands, Op.loaded?, Op.stored?, reference?, or_comm]
  | print routine arg =>
    cases h
    have hline : indent ++ routine.name ++ "(" ++ code.printArgText arg ++ ");"
        = indent ++ (routine.name ++ "(" ++ code.printArgText arg ++ ");") := by
      simp only [String.append_assoc]
    have hroutine : name ≠ routine.name := by
      have hroutines : ∀ routine ∈ Routine.all, isVariable routine.name.toList = false := by decide
      rintro rfl
      simp [hroutines routine hlegible] at hname
    rw [hline, names_indented hindent, mem_words_call (isWord_routine hlegible),
      or_iff_right hroutine, mem_words_printArgText hsymbol]
  | ret value =>
    cases value with
    | none =>
      cases h
      exact (names_indented hindent _).trans
        (iff_of_false (notMem_words (by decide) hname) List.not_mem_nil)
    | some value =>
      cases h
      have htext : ("return " ++ (value.name ++ ";")).toList
          = "return".toList ++ ' ' :: (value.name.toList ++ ';' :: []) := by
        simp
      rw [String.append_assoc, String.append_assoc, names_indented hindent, htext,
        mem_words_around (by decide) (by decide) (by decide) (by decide) hname]
      exact List.mem_singleton.symm
  | branch | loop => cases hblocks

/-! ## Blocks -/

theorem not_names_indented {text : String} (hindent : indent.toList.all (· == ' ') = true)
    (htext : (words text.toList).any isVariable = false) (hname : isVariable name.toList = true) :
    ¬Names [indent ++ text] name := by
  rw [names_indented hindent]
  exact notMem_words htext hname

theorem names_elseLines {elseOps : List Op} {inner : List String}
    (hindent : indent.toList.all (· == ' ') = true) (hinner : elseOps = [] → inner = [])
    (hname : isVariable name.toList = true) :
    Names (elseLines indent elseOps inner) name ↔ Names inner name := by
  have hclosing : ¬Names [indent ++ "\x7d"] name := not_names_indented hindent (by decide) hname
  have hkeyword : ¬Names [indent ++ "\x7d else \x7b"] name :=
    not_names_indented hindent (by decide) hname
  unfold elseLines
  split
  · rename_i hops
    rw [hinner hops]
    exact iff_of_false hclosing names_nil
  · rw [← List.singleton_append, names_append, names_append, or_iff_right hkeyword,
      or_iff_left hclosing]

mutual

/-- The names in the lines of an operation are those of the operations at every depth. -/
theorem names_opLines_iff {code : LoweredFunction} {indent name : String}
    (hindent : indent.toList.all (· == ' ') = true) (hsymbol : IsWord code.symbol.toList)
    (hname : isVariable name.toList = true) (op : Op) {lines : List String}
    (hlegible : ∀ other ∈ op.nested, other.Legible) (h : code.opLines indent op = .ok lines) :
    Names lines name ↔ ∃ other ∈ op.nested, name ∈ code.namesOf other := by
  have hinner : (indent ++ "    ").toList.all (· == ' ') = true := by
    rw [String.toList_append, List.all_append, hindent]
    decide
  have hclosing : ¬Names [indent ++ "\x7d"] name := not_names_indented hindent (by decide) hname
  cases op with
  | branch cond thenOps elseOps =>
    obtain ⟨hthenLegible, helseLegible⟩ := Op.forall_nested_branch hlegible
    obtain ⟨thenInner, elseInner, hthen, helse, rfl⟩ := opLines_branch h
    have hthenNames := names_opsLines_iff hinner hsymbol hname thenOps hthenLegible hthen
    have helseNames := names_opsLines_iff hinner hsymbol hname elseOps helseLegible helse
    have htext : ("if (" ++ cond.name ++ ") \x7b").toList
        = "if ".toList ++ '(' :: (cond.name.toList ++ ')' :: " \x7b".toList) := by
      simp
    have hcond : Names [indent ++ ("if (" ++ cond.name ++ ") \x7b")] name ↔ name = cond.name := by
      rw [names_indented hindent, htext,
        mem_words_around (by decide) (by decide) (by decide) (by decide) hname]
    have hown : code.namesOf (.branch cond thenOps elseOps) = [cond.name] := rfl
    rw [← List.singleton_append, names_append, names_append, hcond, hthenNames,
      names_elseLines hindent (eq_nil_of_opsLines helse) hname, helseNames]
    simp [Op.nested, hown, or_and_right, exists_or]
  | loop condOps cond body =>
    obtain ⟨hcondLegible, hbodyLegible⟩ := Op.forall_nested_loop hlegible
    obtain ⟨condInner, bodyInner, hcond, hbody, rfl⟩ := opLines_loop h
    have hcondNames := names_opsLines_iff hinner hsymbol hname condOps hcondLegible hcond
    have hbodyNames := names_opsLines_iff hinner hsymbol hname body hbodyLegible hbody
    have htext : ("if (!" ++ cond.name ++ ") break;").toList
        = "if (".toList ++ '!' :: (cond.name.toList ++ ')' :: " break;".toList) := by
      simp
    have hbreak : Names [indent ++ "    " ++ ("if (!" ++ cond.name ++ ") break;")] name
        ↔ name = cond.name := by
      rw [names_indented hinner, htext,
        mem_words_around (by decide) (by decide) (by decide) (by decide) hname]
    have hopening : ¬Names [indent ++ "while (1) \x7b"] name :=
      not_names_indented hindent (by decide) hname
    have hown : code.namesOf (.loop condOps cond body) = [cond.name] := rfl
    rw [← List.singleton_append, names_append, or_iff_right hopening, names_append, hcondNames,
      ← List.singleton_append, names_append, hbreak, names_append, hbodyNames,
      or_iff_left hclosing]
    simp [Op.nested, hown, or_and_right, exists_or, or_left_comm]
  | _ =>
    rw [names_opLines hindent hsymbol (hlegible _ (Op.mem_nested_self _)) rfl h hname]
    simp [Op.nested]

theorem names_opsLines_iff {code : LoweredFunction} {indent name : String}
    (hindent : indent.toList.all (· == ' ') = true) (hsymbol : IsWord code.symbol.toList)
    (hname : isVariable name.toList = true) (ops : List Op) {lines : List String}
    (hlegible : ∀ op ∈ Op.nestedAll ops, op.Legible) (h : code.opsLines indent ops = .ok lines) :
    Names lines name ↔ ∃ op ∈ Op.nestedAll ops, name ∈ code.namesOf op := by
  cases ops with
  | nil =>
    cases h
    simp [Op.nestedAll]
  | cons op ops =>
    obtain ⟨first, tail, hfirst, htail, rfl⟩ := opsLines_cons h
    obtain ⟨hopLegible, hopsLegible⟩ := Op.forall_nestedAll_cons hlegible
    rw [names_append, names_opLines_iff hindent hsymbol hname op hopLegible hfirst,
      names_opsLines_iff hindent hsymbol hname ops hopsLegible htail]
    simp [Op.nestedAll, or_and_right, exists_or]

end

/-- The words of a body that are spelled like variables. -/
theorem Legible.names_iff (h : code.Legible) {body : List String}
    (hbody : code.opsLines "    " code.ops = .ok body) (hname : isVariable name.toList = true) :
    Names body name ↔ name ∈ code.mentioned ∨ name ∈ code.references := by
  rw [names_opsLines_iff (by decide) h.symbol hname code.ops h.ops hbody, exists_mem_namesOf_iff]

end LoweredFunction

/-! ## Lowered functions -/

namespace SourceUnit

variable {unit : SourceUnit} {settings : Settings} {lowered : LoweredUnit}
  {code : LoweredFunction}

/-- The text of a lowered function, whatever the settings it is written with, names the registers
and locals that its operations mention, and these are declared exactly once. Any other word of
the body that is spelled like them is the name of a function or string constant. -/
theorem names_body (h : unit.lower settings = .ok lowered)
    (hcanonical : settings.spelling = .canonical) (hdelimiter : settings.delimiter = '$')
    (hcode : code ∈ lowered.functions) (hinternal : code.isExternal = false) (output : Settings) :
    ∃ body, code.opsLines "    " code.ops = .ok body
      ∧ (∃ first last, code.definition output = .ok (first ++ body ++ last))
      ∧ (∀ name ∈ code.mentioned, Line.Names body name)
      ∧ ∀ name, Line.isVariable name.toList = true → Line.Names body name →
        name ∈ code.references
          ∨ name ∈ code.mentioned ∧ (code.scopeNames output).count name = 1 := by
  have hlegible := legible h hcanonical hdelimiter hcode hinternal
  obtain ⟨shared, function, lowering, hderives, rfl⟩ := lower_derives h hcode hinternal
  have hexact := hderives.declaresExactly output
  obtain ⟨body, hbody, hdefinition⟩ := hexact.definition_eq
  refine ⟨body, hbody, ⟨_, _, hdefinition⟩, fun name hname => ?_, fun name hvariable hname => ?_⟩
  · exact (hlegible.names_iff hbody (LoweredFunction.isVariable_mentioned hname)).2 (.inl hname)
  · rcases (hlegible.names_iff hbody hvariable).1 hname with hmentioned | hreference
    · exact .inr ⟨hmentioned,
        List.count_eq_one_of_mem hexact.once (hexact.mentioned name hmentioned)⟩
    · exact .inl hreference

end SourceUnit

end ScalarC
