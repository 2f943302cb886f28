import ScalarC.Proofs.CText.Conversion
import ScalarC.Proofs.CText.Prototypes

/-!
# Lines of operations are read back

An operation starts with a line that tells what it is: the variable it assigns and the
expression or call behind it, the routine it calls, the condition of a branch, or that it is a
loop. The line does not tell copies from casts. The types of the variables decide how an
expression is spelled, but not which variables and which operator are read from it.
-/

namespace ScalarC

/-! ## What an expression is about -/

namespace CExpr

/-- The registers and locals in an expression, in order. Macros are in capitals. -/
def mentions : CExpr → List String
  | name s => if s.toList.head?.any Char.isLower then [s] else []
  | negate e | cast _ e | paren e => e.mentions
  | binary _ lhs rhs => lhs.mentions ++ rhs.mentions
  | _ => []

/-- The number that a constant stands for. -/
def constant : CExpr → Int
  | decimal value _ => value
  | negate e => -e.constant
  | _ => -2147483648

/-- The expression that is narrowed. -/
def narrowed : CExpr → CExpr
  | cast (.scalar .u24) (paren (binary _ (cast _ (paren e)) _)) => e
  | cast (.scalar .i24)
      (paren (binary _ (cast _ (paren (binary _ (paren (binary _ (cast _ (paren e)) _)) _))) _)) =>
    e
  | cast _ (paren e) => e
  | e => e

/-- The operator whose value an expression is. A product of fixed-point numbers ends with a
division by one, which stands in parentheses. -/
def headOperator : CExpr → Operator
  | binary .div (paren _) (paren _) => .mul
  | binary op _ _ => op
  | _ => .add

theorem isLower_shiftName (ty : Scalar) :
    ty.shiftName.toList.head?.any Char.isLower = false := by
  cases ty <;> decide

theorem mentions_register (r : Register) : (name r.name).mentions = [r.name] := by
  simp [mentions, Register.toList_name]

theorem mentions_ofLocal (name : String) :
    (CExpr.name (Name.ofLocal name)).mentions = [Name.ofLocal name] := by
  simp [mentions, Name.toList_ofLocal]

theorem mentions_narrow (ty : Scalar) (e : CExpr) : (narrow ty e).mentions = e.mentions := by
  cases ty <;> simp [narrow, narrow.low24, mentions]

theorem mentions_literal (value : Int) : (literal value).mentions = [] := by
  unfold literal
  split
  · rfl
  · split
    · rfl
    · split <;> rfl

theorem mentions_convert (source target : Scalar) (e : CExpr) :
    (convert source target e).mentions = e.mentions := by
  unfold convert
  split
  · rfl
  · split
    · simp [mentions_narrow, ordered, mentions]
    · simp [mentions_narrow, scaledOne, mentions, isLower_shiftName]
    · simp [mentions_narrow, scaledOne, mentions, isLower_shiftName]
    · split <;> simp [mentions_narrow, scaledOne, mentions, isLower_shiftName]

theorem mentions_arithmetic (op : Operator) (operand result : Scalar) (lhs rhs : CExpr) :
    (arithmetic op operand result lhs rhs).mentions = lhs.mentions ++ rhs.mentions := by
  cases op with
  | mul | div =>
    simp only [arithmetic]
    split <;> simp [mentions_narrow, fixedProduct, fixedQuotient, scaledOne, ordered, mentions,
      isLower_shiftName]
  | _ => simp [arithmetic, mentions_narrow, ordered, shiftCount, mentions]

theorem constant_literal (value : Int) : (literal value).constant = value := by
  unfold literal
  split
  · rename_i h
    exact h.symm
  · split
    · simp only [constant]
      omega
    · split
      · simp only [constant]
        omega
      · simp only [constant]
        omega

theorem narrowed_narrow (ty : Scalar) (e : CExpr) : (narrow ty e).narrowed = e := by
  cases ty <;> rfl

theorem headOperator_arithmetic (op : Operator) (operand result : Scalar) (lhs rhs : CExpr) :
    (arithmetic op operand result lhs rhs).narrowed.headOperator = op := by
  cases op with
  | mul | div =>
    by_cases hfixed : operand.isFixedPoint = true
    all_goals
      simp only [arithmetic, hfixed, if_true, if_false, Bool.false_eq_true, narrowed_narrow]
      rfl
  | eq | ne | lt | le | gt | ge => rfl
  | _ =>
    simp only [arithmetic, narrowed_narrow]
    rfl

/-! ## Spelled expressions -/

/-- No type starts like a register, and no keyword goes on like one. -/
theorem isVariable_register (r : Register) : IsVariable r.name := by
  have hdigits : ∀ c ∈ Nat.toDigits 10 r.number, c.isDigit = true :=
    fun c hc => Nat.isDigit_of_mem_toDigits (by decide) (by decide) hc
  constructor
  · unfold Name.isIdentifier
    rw [Register.toList_name]
    have hparts : ∀ c ∈ Nat.toDigits 10 r.number, Name.isPart c = true :=
      fun c hc => by simp [Name.isPart, Char.isAlphanum, hdigits c hc]
    simpa using ⟨by decide, hparts⟩
  · have htypes : ∀ ty ∈ CType.all, ty.text.toList.head? ≠ some 'r' := by decide
    refine List.find?_eq_none.2 fun ty hty heq => htypes ty hty ?_
    rw [eq_of_beq heq, Register.toList_name]
    rfl
  · have hkeywords : ∀ word ∈ keywords, word.toList.head? = some 'r' →
        word.toList.tail.all Char.isDigit = false := by
      decide
    intro hmem
    have hkeyword := hkeywords _ hmem (by simp [Register.toList_name])
    rw [Register.toList_name, List.tail_cons, List.all_eq_true.2 hdigits] at hkeyword
    cases hkeyword

theorem spelled_register (r : Register) : Spelled (name r.name) :=
  .leaf (isVariable_register r).isLeaf

theorem spelled_literal (value : Int) : Spelled (literal value) := by
  unfold literal
  split
  · exact .paren (.binary .sub (.negate (.leaf (isLeaf_decimal _ _)) rfl rfl)
      (.leaf (isLeaf_decimal _ _)) rfl rfl)
  · split
    · exact .leaf (isLeaf_decimal _ _)
    · split
      · exact .negate (.leaf (isLeaf_decimal _ _)) rfl rfl
      · exact .leaf (isLeaf_decimal _ _)

theorem Spelled.newline_notMem {e : CExpr} (h : Spelled e) : '\n' ∉ e.text.toList := by
  induction h with
  | leaf hleaf => exact fun hc => absurd (hleaf.isPart _ hc) (by decide)
  | negate _ _ _ ih | paren _ ih => simpa [text] using ih
  | cast ty _ _ ih =>
    have hty : '\n' ∉ ty.text.toList := by
      cases ty with
      | scalar ty => exact fun hc => absurd (ty.isPart_name hc) (by decide)
      | _ => decide
    simpa [text, hty] using ih
  | binary op _ _ _ _ ihl ihr =>
    have hop : '\n' ∉ op.token.toList := by cases op <;> decide
    simpa [text, hop] using ⟨ihl, ihr⟩

end CExpr

/-! ## Lines -/

namespace Line

/-- The characters of names and symbols, with a dollar sign as delimiter. -/
def isWordChar (c : Char) : Bool := Name.isPart c || c == '$'

structure IsWord (text : List Char) : Prop where
  ne_nil : text ≠ []
  chars : ∀ c ∈ text, isWordChar c = true

variable {word rest : List Char} {c : Char}

theorem IsWord.takeWhile (h : IsWord word) (hc : isWordChar c = false) (rest : List Char) :
    (word ++ c :: rest).takeWhile isWordChar = word := by
  rw [List.takeWhile_append_of_pos h.chars]
  simp [hc]

theorem IsWord.dropWhile (h : IsWord word) (hc : isWordChar c = false) (rest : List Char) :
    (word ++ c :: rest).dropWhile isWordChar = c :: rest := by
  rw [List.dropWhile_append_of_pos h.chars]
  simp [hc]

theorem IsWord.notMem (h : IsWord word) (hc : isWordChar c = false) : c ∉ word := by
  intro hmem
  rw [h.chars c hmem] at hc
  cases hc

theorem isWord_of_isPart (hne : word ≠ []) (h : ∀ c ∈ word, Name.isPart c = true) :
    IsWord word :=
  ⟨hne, fun c hc => by simp [isWordChar, h c hc]⟩

theorem isWord_of_all (hne : word ≠ []) (h : word.all isWordChar = true) : IsWord word :=
  ⟨hne, List.all_eq_true.1 h⟩

theorem isWord_register (r : Register) : IsWord r.name.toList := by
  rw [Register.toList_name]
  refine isWord_of_isPart (by simp) (List.forall_mem_cons.2 ⟨by decide, fun c hc => ?_⟩)
  have hdigit := Nat.isDigit_of_mem_toDigits (by decide) (by decide) hc
  simp [Name.isPart, Char.isAlphanum, hdigit]

theorem isWord_ofLocal {name : String} (h : Name.isIdentifier name = true) :
    IsWord (Name.ofLocal name).toList :=
  isWord_of_isPart (by simp [Name.toList_ofLocal]) fun _ => Name.isPart_ofLocal h

theorem isWord_scalar (ty : Scalar) : IsWord ty.name.toList :=
  isWord_of_isPart (by cases ty <;> decide) fun _ => ty.isPart_name

theorem isWord_routine {routine : Routine} (h : routine ∈ Routine.all) :
    IsWord routine.name.toList := by
  have hwords : ∀ routine ∈ Routine.all, routine.name.toList.all isWordChar = true := by decide
  exact isWord_of_all (by cases routine <;> simp [Routine.name]) (hwords routine h)

theorem rtakeWhile_append_cons {p : Char → Bool} {first last : List Char}
    (hlast : ∀ d ∈ last, p d = true) (hc : p c = false) :
    (first ++ c :: last).rtakeWhile p = last := by
  have hreverse : ∀ d ∈ last.reverse, p d = true := fun d hd => hlast d (List.mem_reverse.1 hd)
  rw [List.rtakeWhile, List.reverse_append, List.reverse_cons, List.append_assoc,
    List.takeWhile_append_of_pos hreverse]
  simp [hc]

end Line

/-- The register with a C name. -/
def Register.ofText (text : List Char) : Register := ⟨Nat.ofDigitChars 10 text.tail 0⟩

@[simp] theorem Register.ofText_name (r : Register) : ofText r.name.toList = r := by
  simp [ofText, toList_name]

namespace Op

open Line

/-- The operation that assigns an expression. -/
def ofAssignment (target : List Char) (value : CExpr) : Op :=
  if target.head? = some 'v' then
    .storeLocal (String.ofList (target.drop 2)) (.ofText (value.mentions.headD "").toList)
  else
    match value.mentions with
    | [] => .loadConst (.ofText target) value.constant
    | [x] =>
      if x.toList.head? = some 'v' then
        .loadLocal (.ofText target) (String.ofList (x.toList.drop 2))
      else .copy (.ofText target) (.ofText x.toList)
    | lhs :: rhs :: _ =>
      .binary (.ofText target) value.narrowed.headOperator (.ofText lhs.toList) (.ofText rhs.toList)

/-- The registers between the parentheses of a call. -/
def argsOfText (text : List Char) : List Register :=
  if text = [] then [] else
    (text.splitOn ',').map fun piece => .ofText (piece.filter (· != ' '))

/-- What stands between the parentheses of a print routine. -/
def printArgOfText : List Char → PrintArg
  | [] => .nothing
  | '&' :: text => .string (Nat.ofDigitChars 10 (text.rtakeWhile Char.isDigit) 0)
  | text => .register (.ofText text)

/-- A call of a function or of a print routine. -/
def ofCall (dest : Option Register) (callee args : List Char) : Op :=
  match Routine.all.find? (·.name.toList == callee) with
  | some routine => .print routine (printArgOfText args)
  | none => .call dest (String.ofList callee) (argsOfText args)

/-- Whether a word stands in front of a parenthesis. -/
def isCall (text : List Char) : Bool :=
  text.takeWhile isWordChar != [] && (text.dropWhile isWordChar).head? == some '('

/-- The operation that assigns what stands behind the equals sign. -/
def ofValue? (target value : List Char) : Option Op :=
  if isCall value then
    some (ofCall (some (.ofText target)) (value.takeWhile isWordChar)
      (value.dropWhile isWordChar).tail.dropLast.dropLast)
  else (CExpr.read? (String.ofList value.dropLast)).map (ofAssignment target)

/-- The operation that a word starts, by what stands behind the word. Operations nested in it
are left out. -/
def ofWord? (word : List Char) : List Char → Option Op
  | ' ' :: '=' :: ' ' :: value => ofValue? word value
  | '(' :: args => if word = [] then none else some (ofCall none word args.dropLast.dropLast)
  | ' ' :: '(' :: '1' :: _ => some (.loop [] ⟨0⟩ [])
  | ' ' :: '(' :: '!' :: _ => none
  | ' ' :: '(' :: cond => some (.branch (.ofText (cond.takeWhile isWordChar)) [] [])
  | [';'] => some (.ret none)
  | ' ' :: value =>
    if word = "return".toList then some (.ret (some (.ofText value.dropLast))) else none
  | _ => none

/-- The operation that a line starts. -/
def ofLine? (line : List Char) : Option Op :=
  ofWord? (line.takeWhile isWordChar) (line.dropWhile isWordChar)

/-- The operation without those nested in it, and without the distinction between copies and
casts. -/
def opening : Op → Op
  | .cast dest src => .copy dest src
  | .branch cond _ _ => .branch cond [] []
  | .loop _ _ _ => .loop [] ⟨0⟩ []
  | op => op

/-- Whether operations are nested in an operation. -/
def hasBlocks : Op → Bool
  | .branch _ _ _ | .loop _ _ _ => true
  | _ => false

/-- The text can be the callee of an operation: a word, and not the name of a print routine. -/
structure IsCallee (text : String) : Prop where
  isWord : IsWord text.toList
  notRoutine : ∀ routine ∈ Routine.all, routine.name ≠ text

/-- The names that an operation writes can be read. -/
def Legible : Op → Prop
  | .loadLocal _ name | .storeLocal name _ => Name.isIdentifier name = true
  | .call _ callee _ => IsCallee callee
  | .print routine _ => routine ∈ Routine.all
  | _ => True

/-! ### Assignments -/

theorem head?_register (r : Register) : r.name.toList.head? ≠ some 'v' := by
  simp [Register.toList_name]

theorem ofAssignment_literal (dest : Register) (value : Int) :
    ofAssignment dest.name.toList (.literal value) = .loadConst dest value := by
  simp [ofAssignment, head?_register, CExpr.mentions_literal, CExpr.constant_literal]

theorem ofAssignment_local (dest : Register) (name : String) :
    ofAssignment dest.name.toList (.name (Name.ofLocal name)) = .loadLocal dest name := by
  simp [ofAssignment, head?_register, CExpr.mentions_ofLocal, Name.toList_ofLocal]

theorem ofAssignment_convert (dest src : Register) (source target : Scalar) :
    ofAssignment dest.name.toList (.convert source target (.name src.name)) = .copy dest src := by
  simp [ofAssignment, head?_register, CExpr.mentions_convert, CExpr.mentions_register]

theorem ofAssignment_store (name : String) (src : Register) (source target : Scalar) :
    ofAssignment (Name.ofLocal name).toList (.convert source target (.name src.name))
      = .storeLocal name src := by
  simp [ofAssignment, CExpr.mentions_convert, CExpr.mentions_register, Name.toList_ofLocal]

theorem ofAssignment_arithmetic (dest : Register) (op : Operator) (operand result : Scalar)
    (lhs rhs : Register) :
    ofAssignment dest.name.toList
        (.arithmetic op operand result (.name lhs.name) (.name rhs.name))
      = .binary dest op lhs rhs := by
  simp [ofAssignment, head?_register, CExpr.mentions_arithmetic, CExpr.mentions_register,
    CExpr.headOperator_arithmetic]

/-! ### Values -/

theorem isCall_text {e : CExpr} (h : e.Spelled) {c : Char} (rest : List Char)
    (hword : isWordChar c = false) (hopening : c ≠ '(') :
    isCall (e.text.toList ++ c :: rest) = false := by
  induction h generalizing c rest with
  | leaf hleaf =>
    have hleafWord := isWord_of_isPart hleaf.ne_nil hleaf.isPart
    simp [isCall, hleafWord.dropWhile hword, hopening]
  | negate | cast | paren =>
    simp [isCall, CExpr.text, show isWordChar '-' = false by decide,
      show isWordChar '(' = false by decide]
  | @binary lhs rhs op _ _ _ _ ih =>
    have hleft := ih (op.token.toList ++ ' ' :: (rhs.text.toList ++ c :: rest)) (c := ' ')
      (by decide) (by decide)
    simpa [CExpr.text] using hleft

theorem ofValue?_text {value : CExpr} (h : value.Spelled) (target : List Char) :
    ofValue? target (value.text.toList ++ [';']) = some (ofAssignment target value) := by
  have hcall := isCall_text h [] (c := ';') (by decide) (by decide)
  simp [ofValue?, hcall, h.read?_text]

/-! ### Calls -/

/-- The registers of a call, as its line writes them. -/
def argsText (args : List Register) : String := ", ".intercalate (args.map Register.name)

theorem toList_argsText (first : Register) (rest : List Register) :
    (argsText (first :: rest)).toList
      = [','].intercalate (first.name.toList :: (rest.map (·.name.toList)).map (' ' :: ·)) := by
  rw [← Prototype.intercalate_comma_blank, argsText, String.toList_intercalate, List.map_map]
  rfl

theorem newline_notMem_argsText (args : List Register) : '\n' ∉ (argsText args).toList := by
  have hname : ∀ r : Register, '\n' ∉ r.name.toList :=
    fun r => (isWord_register r).notMem (by decide)
  cases args with
  | nil => decide
  | cons first rest =>
    intro hc
    rw [toList_argsText] at hc
    rcases Prototype.mem_intercalate_comma hc with hc | ⟨piece, hpiece, hc⟩
    · cases hc
    · simp only [List.map_map, List.mem_cons, List.mem_map, Function.comp_def] at hpiece
      rcases hpiece with rfl | ⟨r, _, rfl⟩
      · exact hname first hc
      · simp [hname] at hc

theorem argsOfText_names (args : List Register) : argsOfText (argsText args).toList = args := by
  cases args with
  | nil => rfl
  | cons first rest =>
    have hne : ∀ r : Register, r.name.toList.filter (· != ' ') = r.name.toList :=
      fun r => List.filter_eq_self.2
        (Prototype.bne_of_notMem ((isWord_register r).notMem (by decide)))
    have hcomma : ∀ piece ∈ first.name.toList :: (rest.map (·.name.toList)).map (' ' :: ·),
        ',' ∉ piece := by
      have hname : ∀ r : Register, ',' ∉ r.name.toList :=
        fun r => (isWord_register r).notMem (by decide)
      simp [hname]
    have hsplit := List.splitOn_intercalate ',' hcomma (by simp)
    have hnil : (argsText (first :: rest)).toList ≠ [] := by
      rw [toList_argsText]
      cases rest <;> simp [List.intercalate_cons_cons, Register.toList_name]
    rw [argsOfText, if_neg hnil, toList_argsText, hsplit]
    simp [hne, Function.comp_def]

theorem printArgOfText_text (code : LoweredFunction) (arg : PrintArg) :
    printArgOfText (code.printArgText arg).toList = arg := by
  cases arg with
  | nothing => rfl
  | register source =>
    have hname : printArgOfText source.name.toList = .register (.ofText source.name.toList) := by
      rw [Register.toList_name]
      rfl
    rw [LoweredFunction.printArgText, hname, Register.ofText_name]
  | string index =>
    have hdigits : ∀ c ∈ Nat.toDigits 10 index, c.isDigit = true :=
      fun c hc => Nat.isDigit_of_mem_toDigits (by decide) (by decide) hc
    have htail : ((Name.ofString code.symbol index).toList).rtakeWhile Char.isDigit
        = Nat.toDigits 10 index := by
      have hname : (Name.ofString code.symbol index).toList
          = (code.symbol ++ "_st").toList ++ 'r' :: Nat.toDigits 10 index := by
        simp [Name.ofString, Nat.repr_eq_ofList_toDigits]
      rw [hname, rtakeWhile_append_cons hdigits (by decide)]
    have htext : (code.printArgText (.string index)).toList
        = '&' :: (Name.ofString code.symbol index).toList := by
      simp [LoweredFunction.printArgText]
    rw [htext, printArgOfText, htail]
    simp

theorem ofCall_callee {callee : String} (h : IsCallee callee) (dest : Option Register)
    (args : List Register) :
    ofCall dest callee.toList (argsText args).toList = .call dest callee args := by
  have hnone : Routine.all.find? (·.name.toList == callee.toList) = none := by
    refine List.find?_eq_none.2 fun routine hroutine heq => h.notRoutine routine hroutine ?_
    exact String.toList_inj.1 (eq_of_beq heq)
  rw [ofCall, hnone, argsOfText_names, String.ofList_toList]

theorem ofCall_print (dest : Option Register) {routine : Routine} (h : routine ∈ Routine.all)
    (code : LoweredFunction) (arg : PrintArg) :
    ofCall dest routine.name.toList (code.printArgText arg).toList = .print routine arg := by
  have hfind : ∀ routine ∈ Routine.all,
      Routine.all.find? (·.name.toList == routine.name.toList) = some routine := by
    decide
  simp [ofCall, hfind routine h, printArgOfText_text]

theorem newline_notMem_printArgText {code : LoweredFunction}
    (hsymbol : IsWord code.symbol.toList) (arg : PrintArg) :
    '\n' ∉ (code.printArgText arg).toList := by
  cases arg with
  | nothing => exact List.not_mem_nil
  | register source => exact (isWord_register source).notMem (by decide)
  | string index =>
    have hname : '\n' ∉ code.symbol.toList := hsymbol.notMem (by decide)
    have hdigits : '\n' ∉ Nat.toDigits 10 index :=
      fun hc => absurd (Nat.isDigit_of_mem_toDigits (by decide) (by decide) hc) (by decide)
    simp [LoweredFunction.printArgText, Name.ofString, hname, Nat.repr_eq_ofList_toDigits, hdigits]

/-! ### Lines -/

theorem ofLine?_word {word : List Char} {c : Char} (hword : IsWord word)
    (hc : isWordChar c = false) (rest : List Char) :
    ofLine? (word ++ c :: rest) = ofWord? word (c :: rest) := by
  rw [ofLine?, hword.takeWhile hc, hword.dropWhile hc]

theorem ofLine?_assign {target : String} (htarget : IsWord target.toList)
    (value : String) :
    ofLine? (target ++ " = " ++ value).toList = ofValue? target.toList value.toList := by
  have hline : (target ++ " = " ++ value).toList
      = target.toList ++ ' ' :: '=' :: ' ' :: value.toList := by
    simp
  rw [hline]
  exact ofLine?_word htarget (by decide) _

theorem ofLine?_call {callee : String} (hcallee : IsWord callee.toList) (args : String) :
    ofLine? (callee ++ "(" ++ args ++ ");").toList
      = some (ofCall none callee.toList args.toList) := by
  have hline : (callee ++ "(" ++ args ++ ");").toList
      = callee.toList ++ '(' :: (args.toList ++ [')', ';']) := by
    simp
  rw [hline, ofLine?_word hcallee (by decide), ofWord?, if_neg hcallee.ne_nil]
  simp

theorem ofValue?_call {callee : String} (hcallee : IsWord callee.toList) (target : List Char)
    (args : String) :
    ofValue? target (callee ++ "(" ++ args ++ ");").toList
      = some (ofCall (some (.ofText target)) callee.toList args.toList) := by
  have hline : (callee ++ "(" ++ args ++ ");").toList
      = callee.toList ++ '(' :: (args.toList ++ [')', ';']) := by
    simp
  have htake : (callee.toList ++ '(' :: (args.toList ++ [')', ';'])).takeWhile isWordChar
      = callee.toList := hcallee.takeWhile (by decide) _
  have hdrop : (callee.toList ++ '(' :: (args.toList ++ [')', ';'])).dropWhile isWordChar
      = '(' :: (args.toList ++ [')', ';']) := hcallee.dropWhile (by decide) _
  have hcall : isCall (callee ++ "(" ++ args ++ ");").toList = true := by
    simp [isCall, hline, htake, hdrop, hcallee.ne_nil]
  rw [ofValue?, if_pos hcall, hline, htake, hdrop]
  simp

theorem ofLine?_branch (cond : Register) :
    ofLine? ("if (" ++ cond.name ++ ") \x7b").toList = some (.branch cond [] []) := by
  have hline : ("if (" ++ cond.name ++ ") \x7b").toList
      = ['i', 'f'] ++ ' ' :: '(' :: (cond.name.toList ++ [')', ' ', '\x7b']) := by
    simp
  have hcond : (cond.name.toList ++ [')', ' ', '\x7b']).takeWhile isWordChar = cond.name.toList :=
    (isWord_register cond).takeWhile (by decide) _
  have hread : ofWord? ['i', 'f'] (' ' :: '(' :: (cond.name.toList ++ [')', ' ', '\x7b']))
      = some (.branch (.ofText ((cond.name.toList ++ [')', ' ', '\x7b']).takeWhile isWordChar))
        [] []) := by
    rw [Register.toList_name]
    rfl
  rw [hline, ofLine?_word (isWord_of_all (by decide) (by decide)) (by decide), hread, hcond,
    Register.ofText_name]

/-- The line that leaves a loop starts no operation. -/
theorem ofLine?_break (cond : Register) :
    ofLine? ("if (!" ++ cond.name ++ ") break;").toList = none := by
  have hline : ("if (!" ++ cond.name ++ ") break;").toList
      = ['i', 'f'] ++ ' ' :: '(' :: '!' :: (cond.name.toList ++ ") break;".toList) := by
    simp
  rw [hline, ofLine?_word (isWord_of_all (by decide) (by decide)) (by decide)]
  rfl

theorem ofLine?_return (value : Register) :
    ofLine? ("return " ++ value.name ++ ";").toList = some (.ret (some value)) := by
  have hline : ("return " ++ value.name ++ ";").toList
      = "return".toList ++ ' ' :: (value.name.toList ++ [';']) := by
    simp
  have hread : ofWord? "return".toList (' ' :: (value.name.toList ++ [';']))
      = some (.ret (some (.ofText (value.name.toList ++ [';']).dropLast))) := by
    rw [Register.toList_name]
    rfl
  rw [hline, ofLine?_word (isWord_of_all (by decide) (by decide)) (by decide), hread,
    List.dropLast_concat, Register.ofText_name]

/-- The line, without its indentation, starts the operation. -/
structure WrittenAs (op : Op) (line : String) : Prop where
  read : ofLine? line.toList = some op.opening
  newline : '\n' ∉ line.toList

variable {code : LoweredFunction} {indent : String} {op : Op} {lines : List String}

theorem exists_assignment {target : String} {value : CExpr}
    (htarget : IsWord target.toList) (hvalue : value.Spelled)
    (hop : ofAssignment target.toList value = op.opening) :
    ∃ text, LoweredFunction.assignment indent target value = [indent ++ text]
      ∧ op.WrittenAs text := by
  refine ⟨target ++ " = " ++ (value.text ++ ";"), ?_, ?_, ?_⟩
  · simp [LoweredFunction.assignment, String.append_assoc]
  · rw [ofLine?_assign htarget, String.toList_append]
    exact (ofValue?_text hvalue _).trans (congrArg some hop)
  · have hnewline : '\n' ∉ target.toList := htarget.notMem (by decide)
    simpa [hnewline] using hvalue.newline_notMem

/-- An operation without blocks is written on one line, which tells it. -/
theorem exists_line (hsymbol : IsWord code.symbol.toList)
    (h : code.opLines indent op = .ok lines) (hlegible : op.Legible)
    (hblocks : op.hasBlocks = false) :
    ∃ text, lines = [indent ++ text] ∧ op.WrittenAs text := by
  have hnewline : ∀ r : Register, '\n' ∉ r.name.toList :=
    fun r => (isWord_register r).notMem (by decide)
  cases op with
  | loadConst dest value =>
    cases h
    exact exists_assignment (isWord_register dest) (CExpr.spelled_literal value)
      (ofAssignment_literal dest value)
  | loadLocal dest name =>
    cases h
    exact exists_assignment (isWord_register dest)
      (.leaf (CExpr.isVariable_ofLocal hlegible).isLeaf) (ofAssignment_local dest name)
  | copy dest src | cast dest src =>
    simp only [LoweredFunction.opLines, bind_eq_ok, pure_eq_ok] at h
    obtain ⟨source, _, target, _, rfl⟩ := h
    exact exists_assignment (isWord_register dest)
      (CExpr.spelled_convert (CExpr.spelled_register src) rfl)
      (ofAssignment_convert dest src source target)
  | storeLocal name src =>
    simp only [LoweredFunction.opLines, bind_eq_ok, pure_eq_ok] at h
    obtain ⟨target, _, source, _, rfl⟩ := h
    exact exists_assignment (isWord_ofLocal hlegible)
      (CExpr.spelled_convert (CExpr.spelled_register src) rfl)
      (ofAssignment_store name src source target)
  | binary dest op lhs rhs =>
    simp only [LoweredFunction.opLines, bind_eq_ok, pure_eq_ok] at h
    obtain ⟨source, _, target, _, rfl⟩ := h
    exact exists_assignment (isWord_register dest)
      (CExpr.spelled_arithmetic (CExpr.spelled_register lhs) (CExpr.spelled_register rhs) rfl rfl)
      (ofAssignment_arithmetic dest op source target lhs rhs)
  | call dest callee args =>
    have hcallee : '\n' ∉ callee.toList := hlegible.isWord.notMem (by decide)
    have hargs := newline_notMem_argsText args
    cases dest with
    | some dest =>
      cases h
      refine ⟨dest.name ++ " = " ++ (callee ++ "(" ++ argsText args ++ ");"), ?_, ?_, ?_⟩
      · simp [String.append_assoc, argsText]
      · rw [ofLine?_assign (isWord_register dest), ofValue?_call hlegible.isWord,
          Register.ofText_name, ofCall_callee hlegible]
        rfl
      · simpa [hcallee, hnewline] using hargs
    | none =>
      cases h
      refine ⟨callee ++ "(" ++ argsText args ++ ");", ?_, ?_, ?_⟩
      · simp [String.append_assoc, argsText]
      · rw [ofLine?_call hlegible.isWord, ofCall_callee hlegible]
        rfl
      · simpa [hcallee] using hargs
  | print routine arg =>
    cases h
    refine ⟨routine.name ++ "(" ++ code.printArgText arg ++ ");", ?_, ?_, ?_⟩
    · simp [String.append_assoc]
    · rw [ofLine?_call (isWord_routine hlegible), ofCall_print none hlegible]
      rfl
    · have hroutine : '\n' ∉ routine.name.toList := (isWord_routine hlegible).notMem (by decide)
      simpa [hroutine] using newline_notMem_printArgText hsymbol arg
  | ret value =>
    cases value with
    | some value =>
      cases h
      refine ⟨"return " ++ value.name ++ ";", ?_, ofLine?_return value, ?_⟩
      · simp [String.append_assoc]
      · simp [hnewline]
    | none =>
      cases h
      exact ⟨"return;", rfl, rfl, by decide⟩
  | branch | loop => cases hblocks

end Op

end ScalarC
