import Mathlib.Data.List.SplitBy
import ScalarC.Proofs.CText.Reader

/-!
# Expressions are read back from their text

The text of an expression whose operands are unary expressions is read as that
expression.
-/

namespace ScalarC

/-! ## Constants -/

namespace Numeral

variable {base : Nat}

theorem mem_toDigits (hbase : 1 < base) {n : Nat} {c : Char} (h : c ∈ Nat.toDigits base n) :
    ∃ d < base, c = d.digitChar := by
  induction n using Nat.strongRecOn with
  | ind n ih =>
    rw [Nat.toDigits_eq_if hbase] at h
    split at h
    · rename_i hlt
      exact ⟨n, hlt, List.mem_singleton.1 h⟩
    · rcases List.mem_append.1 h with h | h
      · exact ih (n / base) (Nat.div_lt_self (by omega) hbase) h
      · exact ⟨n % base, Nat.mod_lt n (by omega), List.mem_singleton.1 h⟩

theorem digits?_append (base n : Nat) (first last : List Char) :
    digits? base n (first ++ last) = (digits? base n first).bind (digits? base · last) := by
  induction first generalizing n with
  | nil => rfl
  | cons c first ih =>
    cases hd : digit? c with
    | none => simp [digits?, hd]
    | some d =>
      by_cases hlt : d < base <;> simp [digits?, hd, hlt, ih]

/-- The digits of a number are read back, in either case of letters. -/
theorem value?_toDigits (hbase : 1 < base) (spell : Char → Char)
    (hspell : ∀ d < base, digit? (spell d.digitChar) = some d) (n : Nat) :
    value? base ((Nat.toDigits base n).map spell) = some n := by
  have hdigits : digits? base 0 ((Nat.toDigits base n).map spell) = some n := by
    induction n using Nat.strongRecOn with
    | ind n ih =>
      rw [Nat.toDigits_eq_if hbase]
      split
      · rename_i hlt
        simp [digits?, hspell n hlt, hlt]
      · have hlt : n % base < base := Nat.mod_lt n (by omega)
        rw [List.map_append, digits?_append, ih (n / base) (Nat.div_lt_self (by omega) hbase)]
        simp [digits?, hspell _ hlt, hlt, Nat.div_add_mod']
  have hne : Nat.toDigits base n ≠ [] := List.ne_nil_of_length_pos Nat.length_toDigits_pos
  simp [value?, hne, hdigits]

/-- No positive number starts with a zero. -/
theorem head?_toDigits {n : Nat} (hbase : 1 < base) (hle : base ≤ 16) (hn : 0 < n) :
    (Nat.toDigits base n).head? ≠ some '0' := by
  have hdigit : ∀ d < 16, 0 < d → d.digitChar ≠ '0' := by decide
  induction n using Nat.strongRecOn with
  | ind n ih =>
    rw [Nat.toDigits_eq_if hbase]
    split
    · rename_i hlt
      simpa using hdigit n (by omega) hn
    · have hne : Nat.toDigits base (n / base) ≠ [] :=
        List.ne_nil_of_length_pos Nat.length_toDigits_pos
      rw [List.head?_append_of_ne_nil _ hne]
      exact ih (n / base) (Nat.div_lt_self hn hbase) (Nat.div_pos (by omega) (by omega))

end Numeral

namespace CExpr

theorem splitSuffix_append {digits : List Char} (h : 'u' ∉ digits) (isUnsigned : Bool) :
    splitSuffix (digits ++ (suffix isUnsigned).toList) = (digits, isUnsigned) := by
  cases isUnsigned with
  | true => simp [splitSuffix, suffix]
  | false =>
    have hlast : digits.getLast? ≠ some 'u' := fun hlast => h (List.mem_of_getLast? hlast)
    simp [splitSuffix, suffix, hlast]

theorem toList_decimal (n : Nat) (isUnsigned : Bool) :
    (decimal n isUnsigned).text.toList = Nat.toDigits 10 n ++ (suffix isUnsigned).toList := by
  simp [text, Nat.repr_eq_ofList_toDigits]

theorem toList_hexadecimal (n : Nat) (isUnsigned : Bool) :
    (hexadecimal n isUnsigned).text.toList
      = '0' :: 'x' :: (Nat.toDigits 16 n).map Char.toUpper ++ (suffix isUnsigned).toList := by
  simp [text, hexDigits]

theorem constantOfWord?_decimal (n : Nat) (isUnsigned : Bool) :
    constantOfWord? (decimal n isUnsigned).text.toList = some (decimal n isUnsigned) := by
  have hdigit : ∀ d < 10, d.digitChar ≠ 'u' := by decide
  have hsuffix : 'u' ∉ Nat.toDigits 10 n := by
    intro hmem
    obtain ⟨d, hd, hu⟩ := Numeral.mem_toDigits (by decide) hmem
    exact hdigit d hd hu.symm
  have hvalue : Numeral.value? 10 (Nat.toDigits 10 n) = some n := by
    simpa using Numeral.value?_toDigits (by decide) id (by decide) n
  have hdecimal : ∀ c rest, Nat.toDigits 10 n ≠ '0' :: c :: rest := by
    intro c rest heq
    rcases Nat.eq_zero_or_pos n with rfl | hpos
    · cases heq
    · have hhead : (Nat.toDigits 10 n).head? = some '0' := by rw [heq, List.head?_cons]
      exact Numeral.head?_toDigits (by decide) (by decide) hpos hhead
  simp only [toList_decimal, constantOfWord?, splitSuffix_append hsuffix]
  split
  · rename_i heq
    exact absurd heq (hdecimal _ _)
  · rename_i heq
    exact absurd heq (hdecimal _ _)
  · rw [hvalue]
    rfl

theorem constantOfWord?_hexadecimal (n : Nat) (isUnsigned : Bool) :
    constantOfWord? (hexadecimal n isUnsigned).text.toList = some (hexadecimal n isUnsigned) := by
  have hdigit : ∀ d < 16, d.digitChar.toUpper ≠ 'u' := by decide
  have hsuffix : 'u' ∉ '0' :: 'x' :: (Nat.toDigits 16 n).map Char.toUpper := by
    simp only [List.mem_cons, List.mem_map, not_or]
    refine ⟨by decide, by decide, ?_⟩
    rintro ⟨c, hmem, hu⟩
    obtain ⟨d, hd, rfl⟩ := Numeral.mem_toDigits (by decide) hmem
    exact hdigit d hd hu
  have hvalue : Numeral.value? 16 ((Nat.toDigits 16 n).map Char.toUpper) = some n :=
    Numeral.value?_toDigits (by decide) Char.toUpper (by decide) n
  simp only [toList_hexadecimal, constantOfWord?, splitSuffix_append hsuffix]
  rw [hvalue]
  rfl

/-! ## Words -/

/-- Constants do not name types. -/
theorem ofWord?_of_isDigit {word : List Char} (h : word.head?.any Char.isDigit) :
    CType.ofWord? word = none := by
  have hletter : ∀ ty ∈ CType.all, ty.text.toList.head?.any Char.isDigit = false := by decide
  refine List.find?_eq_none.2 fun ty hty heq => ?_
  have htext := hletter ty hty
  rw [eq_of_beq heq, h] at htext
  cases htext

/-- The text is the name of a variable. -/
structure IsVariable (text : String) : Prop where
  isIdentifier : Name.isIdentifier text
  notType : CType.ofWord? text.toList = none
  notKeyword : text ∉ keywords

theorem isDigit_of_isStart {c : Char} (h : Name.isStart c) : c.isDigit = false := by
  have hstart : (decide (65 ≤ c.val ∧ c.val ≤ 90)
      || decide (97 ≤ c.val) && decide (c.val ≤ 122) || c == '_') = true := h
  show (decide (48 ≤ c.val) && decide (c.val ≤ 57)) = false
  simp only [Bool.or_eq_true, Bool.and_eq_true, decide_eq_true_eq, beq_iff_eq] at hstart
  rcases hstart with (hupper | hlower) | rfl
  · grind
  · grind
  · rfl

/-- A variable starts with a letter or an underscore. -/
theorem IsVariable.exists_cons {text : String} (h : IsVariable text) :
    ∃ c rest, text.toList = c :: rest ∧ Name.isStart c ∧ rest.all Name.isPart := by
  have hid := h.isIdentifier
  unfold Name.isIdentifier at hid
  split at hid
  · cases hid
  · rename_i c rest heq
    exact ⟨c, rest, heq, Bool.and_eq_true_iff.1 hid⟩

theorem IsVariable.ofWord? {text : String} (h : IsVariable text) :
    ofWord? text.toList = some (name text) := by
  obtain ⟨c, rest, heq, hstart, _⟩ := h.exists_cons
  have hhead : text.toList.head?.any Char.isDigit = false := by
    simp [heq, isDigit_of_isStart hstart]
  simp [CExpr.ofWord?, hhead, h.notType, h.notKeyword]

end CExpr

/-! ## Tokens -/

namespace Token

/-- No token holds both neighbours. -/
def Apart (first last : List Char) : Prop :=
  ∀ c ∈ first.getLast?, ∀ d ∈ last.head?, joined c d = false

def isSeparator (c : Char) : Bool :=
  c == '(' || c == ')' || c == ' '

theorem joined_of_isSeparator {c d : Char} (h : isSeparator c ∨ isSeparator d) :
    joined c d = false := by
  have hpart : ∀ c, isSeparator c → Name.isPart c = false ∧ isMark c = false := by
    intro c hc
    simp only [isSeparator, Bool.or_eq_true, beq_iff_eq] at hc
    rcases hc with (rfl | rfl) | rfl <;> decide
  rcases h with hc | hd
  · simp [joined, hpart c hc]
  · simp [joined, hpart d hd]

theorem joined_minus {c : Char} (h : Name.isPart c) : joined '-' c = false := by
  have hmarks : ("+-*/%&|^<>=!".toList.all fun d => !Name.isPart d) = true := by decide
  have hc : isMark c = false := by
    cases hc : isMark c with
    | false => rfl
    | true =>
      have hmark := List.all_eq_true.1 hmarks c (by simpa [isMark] using hc)
      simp [h] at hmark
  have hminus : Name.isPart '-' = false := by decide
  simp [joined, hc, hminus]

theorem split?_append {first last : List Char} {ts us : List Token} (h : Apart first last)
    (hfirst : split? first = some ts) (hlast : split? last = some us) :
    split? (first ++ last) = some (ts ++ us) := by
  unfold split? at *
  rw [List.splitBy_append h, List.filter_append, List.mapM_append, hfirst, hlast]
  rfl

theorem split?_opening : split? ['('] = some [.opening] := by decide

theorem split?_closing : split? [')'] = some [.closing] := by decide

theorem split?_space : split? [' '] = some [] := by decide

theorem split?_cons {last : List Char} {c : Char} {ts us : List Token} (hc : isSeparator c)
    (hfirst : split? [c] = some ts) (hlast : split? last = some us) :
    split? (c :: last) = some (ts ++ us) := by
  refine split?_append (fun d hd _ _ => ?_) hfirst hlast
  cases hd
  exact joined_of_isSeparator (.inl hc)

/-- A separator ends what is in front of it. -/
theorem split?_append_cons {first last : List Char} {c : Char} {ts us : List Token}
    (hc : isSeparator c) (hfirst : split? first = some ts) (hlast : split? (c :: last) = some us) :
    split? (first ++ c :: last) = some (ts ++ us) := by
  refine split?_append (fun _ _ d hd => ?_) hfirst hlast
  cases hd
  exact joined_of_isSeparator (.inr hc)

/-- A run of letters and digits is one word. -/
theorem split?_word {word : List Char} (hne : word ≠ []) (hword : ∀ c ∈ word, Name.isPart c) :
    split? word = some [.word word] := by
  have hchain : word.IsChain fun c d => joined c d = true := by
    refine (List.pairwise_of_forall_mem_list fun c hc d hd => ?_).isChain
    simp [joined, hword c hc, hword d hd]
  have hrun : ∀ c, Name.isPart c = false → word ≠ [c] := by
    rintro c hc rfl
    simp [hc] at hword
  have hspace : (word != [' ']) = true := by simpa using hrun ' ' (by decide)
  have htoken : ofRun? word = some (.word word) := by
    simp [ofRun?, hrun '(' (by decide), hrun ')' (by decide), List.all_eq_true.2 hword]
  simp [split?, List.splitBy_of_isChain hne hchain, hspace, htoken]

theorem split?_operator (op : Operator) : split? op.token.toList = some [.operator op] := by
  cases op <;> decide

end Token

namespace CExpr

/-! ## Expressions -/

/-- Not a binary expression. -/
def isOperand : CExpr → Bool
  | binary _ _ _ => false
  | _ => true

def isNegate : CExpr → Bool
  | negate _ => true
  | _ => false

/-- The tokens of an expression's text. -/
def tokens : CExpr → List Token
  | negate e => .operator .sub :: e.tokens
  | cast ty e => .opening :: .word ty.text.toList :: .closing :: e.tokens
  | binary op lhs rhs => lhs.tokens ++ .operator op :: rhs.tokens
  | paren e => .opening :: (e.tokens ++ [.closing])
  | e => [.word e.text.toList]

/-- An expression that is one word. -/
structure IsLeaf (e : CExpr) : Prop where
  tokens : e.tokens = [.word e.text.toList]
  ne_nil : e.text.toList ≠ []
  isPart : ∀ c ∈ e.text.toList, Name.isPart c
  notType : CType.ofWord? e.text.toList = none
  ofWord? : ofWord? e.text.toList = some e

/-- Operands are unary expressions, and signs do not follow each other. -/
inductive Spelled : CExpr → Prop
  | leaf {e : CExpr} (h : e.IsLeaf) : Spelled e
  | negate {e : CExpr} (h : Spelled e) (operand : e.isOperand) (plain : e.isNegate = false) :
      Spelled (negate e)
  | cast {e : CExpr} (ty : CType) (h : Spelled e) (operand : e.isOperand) : Spelled (cast ty e)
  | binary {lhs rhs : CExpr} (op : Operator) (hl : Spelled lhs) (hr : Spelled rhs)
      (left : lhs.isOperand) (right : rhs.isOperand) : Spelled (binary op lhs rhs)
  | paren {e : CExpr} (h : Spelled e) : Spelled (paren e)

theorem IsVariable.isLeaf {s : String} (h : IsVariable s) : (name s).IsLeaf := by
  obtain ⟨c, rest, hs, hstart, hrest⟩ := h.exists_cons
  refine ⟨rfl, ?_, ?_, h.notType, h.ofWord?⟩
  · simp [text, hs]
  · simpa [text, hs, Name.isPart_of_isStart hstart] using hrest

/-- A word that starts with a digit is a constant. -/
theorem isLeaf_constant {e : CExpr} {c : Char} {rest : List Char}
    (htokens : e.tokens = [.word e.text.toList]) (htext : e.text.toList = c :: rest)
    (hdigit : c.isDigit) (hrest : ∀ d ∈ rest, Name.isPart d)
    (hconstant : constantOfWord? e.text.toList = some e) : e.IsLeaf := by
  have hhead : e.text.toList.head?.any Char.isDigit := by simp [htext, hdigit]
  have hpart : Name.isPart c := by simp [Name.isPart, Char.isAlphanum, hdigit]
  refine ⟨htokens, by simp [htext], ?_, ofWord?_of_isDigit hhead,
    by rw [ofWord?, if_pos hhead, hconstant]⟩
  simpa [htext, hpart] using hrest

theorem isPart_suffix {isUnsigned : Bool} {c : Char} (h : c ∈ (suffix isUnsigned).toList) :
    Name.isPart c := by
  cases isUnsigned <;> simp_all [suffix]
  decide

theorem isLeaf_decimal (n : Nat) (isUnsigned : Bool) : (decimal n isUnsigned).IsLeaf := by
  have hmem : ∀ c ∈ Nat.toDigits 10 n, c.isDigit :=
    fun c hc => Nat.isDigit_of_mem_toDigits (by decide) (by decide) hc
  cases hdigits : Nat.toDigits 10 n with
  | nil => exact absurd hdigits (List.ne_nil_of_length_pos Nat.length_toDigits_pos)
  | cons c rest =>
    rw [hdigits, List.forall_mem_cons] at hmem
    refine isLeaf_constant rfl (by rw [toList_decimal, hdigits]; rfl) hmem.1 ?_
      (constantOfWord?_decimal n isUnsigned)
    intro d hd
    rcases List.mem_append.1 hd with hd | hd
    · simp [Name.isPart, Char.isAlphanum, hmem.2 d hd]
    · exact isPart_suffix hd

theorem isLeaf_hexadecimal (n : Nat) (isUnsigned : Bool) : (hexadecimal n isUnsigned).IsLeaf := by
  have hdigit : ∀ d < 16, Name.isPart d.digitChar.toUpper := by decide
  refine isLeaf_constant rfl (toList_hexadecimal n isUnsigned) (by decide) ?_
    (constantOfWord?_hexadecimal n isUnsigned)
  intro d hd
  rcases List.mem_append.1 hd with hd | hd
  · rcases List.mem_cons.1 hd with rfl | hd
    · decide
    · obtain ⟨c, hc, rfl⟩ := List.mem_map.1 hd
      obtain ⟨k, hk, rfl⟩ := Numeral.mem_toDigits (by decide) hc
      exact hdigit k hk
  · exact isPart_suffix hd

theorem isPart_text (ty : CType) : ty.text.toList ≠ [] ∧ ty.text.toList.all Name.isPart := by
  cases ty with
  | scalar ty => cases ty <;> decide
  | _ => decide

theorem ofWord?_text (ty : CType) : CType.ofWord? ty.text.toList = some ty := by
  cases ty with
  | scalar ty => cases ty <;> decide
  | _ => decide

/-- An operand does not merge with a sign in front of it. -/
theorem Spelled.apart_minus {e : CExpr} (h : Spelled e) (operand : e.isOperand)
    (plain : e.isNegate = false) : Token.Apart ['-'] e.text.toList := by
  intro c hc d hd
  cases hc
  cases h with
  | leaf h => exact Token.joined_minus (h.isPart d (List.mem_of_mem_head? hd))
  | negate h _ _ => cases plain
  | cast ty h _ =>
    simp [text] at hd
    subst hd
    decide
  | binary op hl hr _ _ => cases operand
  | paren h =>
    simp [text] at hd
    subst hd
    decide

open Token in
/-- The text of an expression splits into its tokens. -/
theorem Spelled.split?_text {e : CExpr} (h : Spelled e) :
    split? e.text.toList = some e.tokens := by
  induction h with
  | leaf h =>
    rw [h.tokens]
    exact split?_word h.ne_nil h.isPart
  | @negate e h operand plain ih =>
    have htext : (CExpr.negate e).text.toList = ['-'] ++ e.text.toList := by simp [text]
    rw [htext]
    exact split?_append (h.apart_minus operand plain) (split?_operator .sub) ih
  | @cast e ty h operand ih =>
    have htype := split?_word (isPart_text ty).1 (List.all_eq_true.1 (isPart_text ty).2)
    have htext : (CExpr.cast ty e).text.toList
        = '(' :: (ty.text.toList ++ ')' :: e.text.toList) := by simp [text]
    rw [htext]
    exact split?_cons rfl split?_opening
      (split?_append_cons rfl htype (split?_cons rfl split?_closing ih))
  | @binary lhs rhs op hl hr left right ihl ihr =>
    have htext : (CExpr.binary op lhs rhs).text.toList
        = lhs.text.toList ++ ' ' :: (op.token.toList ++ ' ' :: rhs.text.toList) := by simp [text]
    rw [htext]
    exact split?_append_cons rfl ihl (split?_cons rfl split?_space
      (split?_append_cons rfl (split?_operator op) (split?_cons rfl split?_space ihr)))
  | @paren e h ih =>
    have htext : (CExpr.paren e).text.toList = '(' :: (e.text.toList ++ [')']) := by simp [text]
    rw [htext]
    exact split?_cons rfl split?_opening (split?_append_cons rfl ih split?_closing)

/-- An expression in parentheses does not look like a type. -/
theorem Spelled.readType?_eq_none {e : CExpr} (h : Spelled e) (rest : List Token) :
    readType? (e.tokens ++ .closing :: rest) = none := by
  cases h with
  | leaf h => simp [h.tokens, readType?, h.notType]
  | negate h _ _ => rfl
  | cast ty h _ => rfl
  | @binary lhs rhs op hl hr left right =>
    cases hl with
    | leaf h => simp [tokens, h.tokens, readType?]
    | negate h _ _ => rfl
    | cast ty h _ => rfl
    | binary _ _ _ _ _ => cases left
    | paren h => rfl
  | paren h => rfl

/-- The tokens of the expression are read, and no others. -/
structure ReadsBack (e : CExpr) : Prop where
  operand : e.isOperand → ∀ depth rest, e.tokens.length ≤ depth →
    readOperand? depth (e.tokens ++ rest) = some (e, rest)
  expression : ∀ depth rest, e.tokens.length ≤ depth → (∀ op, rest.head? ≠ some (.operator op)) →
    readBinary? (readOperand? depth) (e.tokens ++ rest) = some (e, rest)

theorem ReadsBack.of_operand {e : CExpr}
    (h : ∀ depth rest, e.tokens.length ≤ depth →
      readOperand? depth (e.tokens ++ rest) = some (e, rest)) : ReadsBack e where
  operand _ := h
  expression depth rest hdepth hrest := by
    rw [readBinary?, h depth rest hdepth]
    cases rest with
    | nil => rfl
    | cons token rest =>
      cases token with
      | operator op => exact absurd rfl (hrest op)
      | _ => rfl

theorem Spelled.readsBack {e : CExpr} (h : Spelled e) : ReadsBack e := by
  induction h with
  | @leaf e h =>
    refine .of_operand fun depth rest hdepth => ?_
    rw [h.tokens] at hdepth ⊢
    cases depth with
    | zero => simp at hdepth
    | succ depth => simp [readOperand?, h.ofWord?]
  | @negate e h operand plain ih =>
    refine .of_operand fun depth rest hdepth => ?_
    cases depth with
    | zero => simp [tokens] at hdepth
    | succ depth =>
      have hread := ih.operand operand depth rest (by simpa [tokens] using hdepth)
      simp [tokens, readOperand?, hread]
  | @cast e ty h operand ih =>
    refine .of_operand fun depth rest hdepth => ?_
    cases depth with
    | zero => simp [tokens] at hdepth
    | succ depth =>
      have hread := ih.operand operand depth rest (by simp [tokens] at hdepth; omega)
      simp [tokens, readOperand?, readType?, ofWord?_text, hread]
  | @binary lhs rhs op hl hr left right ihl ihr =>
    refine ⟨nofun, fun depth rest hdepth hrest => ?_⟩
    simp only [tokens, List.length_append, List.length_cons] at hdepth
    have hleft := ihl.operand left depth (.operator op :: (rhs.tokens ++ rest)) (by omega)
    have hright := ihr.operand right depth rest (by omega)
    simp [tokens, readBinary?, hleft, hright]
  | @paren e h ih =>
    refine .of_operand fun depth rest hdepth => ?_
    cases depth with
    | zero => simp [tokens] at hdepth
    | succ depth =>
      have hread := ih.expression depth (.closing :: rest) (by simp [tokens] at hdepth; omega)
        (by simp)
      simp [tokens, readOperand?, h.readType?_eq_none, hread]

/-- The text of an expression spells the expression. -/
theorem Spelled.read?_text {e : CExpr} (h : Spelled e) : read? e.text = some e := by
  have hread := h.readsBack.expression e.tokens.length [] (Nat.le_refl _) (by simp)
  rw [List.append_nil] at hread
  simp [read?, h.split?_text, hread]

end CExpr

end ScalarC
