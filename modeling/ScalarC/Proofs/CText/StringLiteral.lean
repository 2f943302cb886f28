import ScalarC.CText.StringBody
import ScalarC.Proofs.CText.ReadBack

/-!
# Reading C string literals

A reader for string literals, in the order of C: trigraphs are replaced first, everywhere in
the text, and then the characters up to the closing quote are decoded. An octal escape takes
as many digits as it can, up to three.

The escaped form of a text is read back as the bytes of the text, whatever stands behind it.
Every question mark has a backslash in front of it, so there are no trigraphs, and every octal
escape has three digits already, so it takes none of the digits that follow.

## Main definitions

* `StringBody.replaceTrigraphs`: the text after the first phase.
* `StringBody.readBody?`: the bytes of a literal, and the text behind its closing quote.
-/

namespace ScalarC

namespace StringBody

/-! ## Trigraphs -/

/-- What two question marks stand for, together with the character behind them. -/
def trigraph? : Char → Option Char
  | '=' => some '#'
  | '(' => some '['
  | '/' => some '\\'
  | ')' => some ']'
  | '\x27' => some '^'
  | '<' => some '\x7b'
  | '!' => some '|'
  | '>' => some '\x7d'
  | '-' => some '~'
  | _ => none

def replaceTrigraphs : List Char → List Char
  | '?' :: '?' :: c :: rest =>
    match trigraph? c with
    | some d => d :: replaceTrigraphs rest
    | none => '?' :: replaceTrigraphs ('?' :: c :: rest)
  | c :: rest => c :: replaceTrigraphs rest
  | [] => []

variable {c : Char} {text rest : List Char} {byte : UInt8}

/-- A character that does not start a pair of question marks is left as it is. -/
theorem replaceTrigraphs_cons (h : c = '?' → rest.head? ≠ some '?') :
    replaceTrigraphs (c :: rest) = c :: replaceTrigraphs rest := by
  rw [replaceTrigraphs]
  rintro d tail rfl rfl
  exact h rfl rfl

theorem replaceTrigraphs_append (h : '?' ∉ text) :
    replaceTrigraphs (text ++ rest) = text ++ replaceTrigraphs rest := by
  induction text with
  | nil => rfl
  | cons c text ih =>
    rw [List.mem_cons, not_or] at h
    rw [List.cons_append, replaceTrigraphs_cons fun hc => absurd hc.symm h.1, ih h.2]
    rfl

/-! ## Characters -/

/-- The printable characters of ASCII. -/
def isPrintable (c : Char) : Bool := decide (' ' ≤ c) && decide (c ≤ '~')

theorem isPrintable_iff {c : Char} : isPrintable c = true ↔ 32 ≤ c.toNat ∧ c.toNat ≤ 126 := by
  simp only [isPrintable, Bool.and_eq_true, decide_eq_true_eq, Char.le_def, UInt32.le_iff_toNat_le]
  rfl

/-- The byte of an escape with one letter or mark. -/
def simpleEscape? : Char → Option UInt8
  | '\x27' => some 39
  | '"' => some 34
  | '?' => some 63
  | '\\' => some 92
  | 'a' => some 7
  | 'b' => some 8
  | 'f' => some 12
  | 'n' => some 10
  | 'r' => some 13
  | 't' => some 9
  | 'v' => some 11
  | _ => none

def isOctal (c : Char) : Bool := decide ('0' ≤ c) && decide (c ≤ '7')

/-- The digits of an octal escape: as many as follow, up to three. -/
def octalRun (text : List Char) : List Char := (text.take 3).takeWhile isOctal

/-- The byte of an escape, and the text behind it. The number of an octal escape has to be that
of a byte. -/
def readEscape? (text : List Char) : Option (UInt8 × List Char) :=
  if octalRun text = [] then
    match text with
    | c :: rest => (simpleEscape? c).map fun byte => (byte, rest)
    | [] => none
  else
    ((Numeral.value? 8 (octalRun text)).filter (· < 256)).map fun n =>
      (UInt8.ofNat n, text.drop (octalRun text).length)

/-- One byte of a literal, and the text behind it. A quote has to be escaped. -/
def readByte? : List Char → Option (UInt8 × List Char)
  | [] => none
  | c :: rest =>
    if c = '\\' then readEscape? rest
    else if isPrintable c && c != '"' then some (UInt8.ofNat c.toNat, rest)
    else none

theorem length_readEscape? (h : readEscape? text = some (byte, rest)) :
    rest.length ≤ text.length := by
  unfold readEscape? at h
  split at h
  · cases text with
    | nil => cases h
    | cons c tail =>
      obtain ⟨_, _, hread⟩ := Option.map_eq_some_iff.1 h
      obtain ⟨_, rfl⟩ := Prod.mk.inj hread
      simp
  · obtain ⟨_, _, hread⟩ := Option.map_eq_some_iff.1 h
    obtain ⟨_, rfl⟩ := Prod.mk.inj hread
    simp

theorem length_readByte? (h : readByte? text = some (byte, rest)) : rest.length < text.length := by
  cases text with
  | nil => cases h
  | cons c tail =>
    rw [List.length_cons, Nat.lt_succ_iff]
    rw [readByte?] at h
    split at h
    · exact length_readEscape? h
    · split at h
      · obtain ⟨_, rfl⟩ := Prod.mk.inj (Option.some.inj h)
        exact Nat.le_refl _
      · cases h

/-- The bytes of a literal up to the closing quote, and the text behind it. -/
def readBody? (text : List Char) : Option (List UInt8 × List Char) :=
  if text.head? = some '"' then some ([], text.tail)
  else
    match _h : readByte? text with
    | none => none
    | some (byte, rest) => (readBody? rest).map fun read => (byte :: read.1, read.2)
termination_by text.length
decreasing_by exact length_readByte? ‹_›

theorem readBody?_quote (rest : List Char) : readBody? ('"' :: rest) = some ([], rest) := by
  simp [readBody?]

theorem readBody?_of_readByte? (hquote : text.head? ≠ some '"')
    (h : readByte? text = some (byte, rest)) :
    readBody? text = (readBody? rest).map fun read => (byte :: read.1, read.2) := by
  rw [readBody?, if_neg hquote]
  split
  · simp_all
  · simp_all

/-! ## Escaped bytes -/

/-- The character of a byte has the number of the byte. -/
theorem toNat_ofNat_byte (byte : UInt8) : (Char.ofNat byte.toNat).toNat = byte.toNat := by
  have hlt := byte.toNat_lt
  have hvalid : byte.toNat.isValidChar := .inl (by omega)
  rw [Char.ofNat, dif_pos hvalid]
  rfl

theorem eq_of_ofNat_byte (h : Char.ofNat byte.toNat = c) : UInt8.ofNat c.toNat = byte := by
  rw [← h, toNat_ofNat_byte, UInt8.ofNat_toNat]

theorem octalDigit_mod (n : Nat) : octalDigit (n % 8) = octalDigit n := by
  simp [octalDigit]

/-- What holds of the eight digits holds of every digit. -/
theorem forall_octalDigit {p : Char → Nat → Prop} (h : ∀ k < 8, p (octalDigit k) k) (n : Nat) :
    p (octalDigit n) (n % 8) := by
  rw [← octalDigit_mod]
  exact h (n % 8) (Nat.mod_lt n (by decide))

theorem isOctal_octalDigit (n : Nat) : isOctal (octalDigit n) = true :=
  forall_octalDigit (p := fun c _ => isOctal c = true) (by decide) n

theorem isPrintable_octalDigit (n : Nat) : isPrintable (octalDigit n) = true :=
  forall_octalDigit (p := fun c _ => isPrintable c = true) (by decide) n

theorem octalDigit_ne (n : Nat) : '?' ≠ octalDigit n :=
  forall_octalDigit (p := fun c _ => '?' ≠ c) (by decide) n

theorem digit?_octalDigit (n : Nat) : Numeral.digit? (octalDigit n) = some (n % 8) :=
  forall_octalDigit (p := fun c k => Numeral.digit? c = some k) (by decide) n

/-- The three digits of a byte are read as its number. -/
theorem value?_octalDigits (byte : UInt8) :
    Numeral.value? 8 [octalDigit (byte.toNat / 64), octalDigit (byte.toNat / 8),
      octalDigit byte.toNat] = some byte.toNat := by
  have hlt := byte.toNat_lt
  have hdigit : ∀ n, n % 8 < 8 := fun n => Nat.mod_lt n (by decide)
  have hvalue : (byte.toNat / 64 % 8 * 8 + byte.toNat / 8 % 8) * 8 + byte.toNat % 8
      = byte.toNat := by omega
  simp [Numeral.value?, Numeral.digits?, digit?_octalDigit, hdigit, hvalue]

/-- Three digits are an escape of their own: a fourth one is not taken. -/
theorem readEscape?_octal {a b c : Char} {n : Nat} (ha : isOctal a = true) (hb : isOctal b = true)
    (hc : isOctal c = true) (hvalue : Numeral.value? 8 [a, b, c] = some n) (hn : n < 256) :
    readEscape? (a :: b :: c :: rest) = some (UInt8.ofNat n, rest) := by
  have hrun : octalRun (a :: b :: c :: rest) = [a, b, c] := by simp [octalRun, ha, hb, hc]
  simp [readEscape?, hrun, hvalue, hn]

/-- The forms that a byte is escaped in. -/
inductive EscapedAs (byte : UInt8) : List Char → Prop
  | simple {c : Char} (h : simpleEscape? c = some byte) (letter : isOctal c = false)
      (printable : isPrintable c = true) : EscapedAs byte ['\\', c]
  | plain {c : Char} (h : UInt8.ofNat c.toNat = byte) (printable : isPrintable c = true)
      (unmarked : c ≠ '\\' ∧ c ≠ '"' ∧ c ≠ '?') : EscapedAs byte [c]
  | octal : EscapedAs byte (octalEscape byte)

theorem escapedAs_escapeByte (byte : UInt8) : EscapedAs byte (escapeByte byte) := by
  have hsimple : ∀ c d, Char.ofNat byte.toNat = c → simpleEscape? d = some (UInt8.ofNat c.toNat) →
      isOctal d = false → isPrintable d = true → EscapedAs byte ['\\', d] := by
    intro c d hc hd hletter hprintable
    exact .simple (hd.trans (congrArg some (eq_of_ofNat_byte hc))) hletter hprintable
  unfold escapeByte
  split
  · exact hsimple '\\' '\\' ‹_› rfl rfl rfl
  · exact hsimple '"' '"' ‹_› rfl rfl rfl
  · exact hsimple '\n' 'n' ‹_› rfl rfl rfl
  · exact hsimple '\t' 't' ‹_› rfl rfl rfl
  · exact hsimple '\r' 'r' ‹_› rfl rfl rfl
  · exact hsimple '?' '?' ‹_› rfl rfl rfl
  · rename_i hbackslash hquote _ _ _ hquestion
    split
    · rename_i hrange
      refine .plain (eq_of_ofNat_byte rfl) ?_ ⟨hbackslash, hquote, hquestion⟩
      rw [isPrintable_iff, toNat_ofNat_byte]
      simpa [UInt8.le_iff_toNat_le] using hrange
    · exact .octal

namespace EscapedAs

/-- An escaped byte is read as the byte, whatever follows. -/
theorem readByte? (h : EscapedAs byte text) (rest : List Char) :
    readByte? (text ++ rest) = some (byte, rest) := by
  cases h with
  | @simple c h letter _ =>
    have hrun : octalRun (c :: rest) = [] := by simp [octalRun, letter]
    simp [StringBody.readByte?, readEscape?, hrun, h]
  | @plain c h printable unmarked =>
    simp [StringBody.readByte?, unmarked, printable, h]
  | octal =>
    simp only [octalEscape, List.cons_append, List.nil_append, StringBody.readByte?, if_true]
    rw [readEscape?_octal (isOctal_octalDigit _) (isOctal_octalDigit _) (isOctal_octalDigit _)
      (value?_octalDigits byte) byte.toNat_lt, UInt8.ofNat_toNat]

/-- It does not start with a quote or a question mark. -/
theorem head?_ne (h : EscapedAs byte text) (rest : List Char) :
    (text ++ rest).head? ≠ some '"' ∧ (text ++ rest).head? ≠ some '?' := by
  cases h with
  | simple _ _ _ => simp
  | plain _ _ unmarked => simp [unmarked]
  | octal => simp [octalEscape]

theorem isPrintable (h : EscapedAs byte text) (hc : c ∈ text) : isPrintable c = true := by
  cases h with
  | simple _ _ printable =>
    rcases List.mem_pair.1 hc with rfl | rfl
    · rfl
    · exact printable
  | plain _ printable _ =>
    obtain rfl := List.mem_singleton.1 hc
    exact printable
  | octal =>
    rcases List.mem_cons.1 hc with rfl | hc
    · rfl
    · simp only [List.mem_cons, List.not_mem_nil, or_false] at hc
      rcases hc with rfl | rfl | rfl
      all_goals exact isPrintable_octalDigit _

/-- An escaped byte takes no part in a trigraph, unless it ends in front of a question mark. -/
theorem replaceTrigraphs (h : EscapedAs byte text) (hrest : rest.head? ≠ some '?') :
    replaceTrigraphs (text ++ rest) = text ++ replaceTrigraphs rest := by
  cases h with
  | @simple c _ _ _ =>
    have hsecond : StringBody.replaceTrigraphs (c :: rest) = c :: StringBody.replaceTrigraphs rest :=
      replaceTrigraphs_cons fun _ => hrest
    have hfirst : StringBody.replaceTrigraphs ('\\' :: c :: rest)
        = '\\' :: StringBody.replaceTrigraphs (c :: rest) := replaceTrigraphs_cons (by simp)
    exact hfirst.trans (congrArg _ hsecond)
  | plain _ _ _ => exact replaceTrigraphs_cons fun _ => hrest
  | octal =>
    refine replaceTrigraphs_append ?_
    simp [octalEscape, octalDigit_ne]

end EscapedAs

/-! ## Escaped texts -/

theorem head?_flatMap_escapeByte (bytes : List UInt8) (hrest : rest.head? ≠ some '?') :
    (bytes.flatMap escapeByte ++ rest).head? ≠ some '?' := by
  cases bytes with
  | nil => exact hrest
  | cons byte bytes =>
    rw [List.flatMap_cons, List.append_assoc]
    exact ((escapedAs_escapeByte byte).head?_ne _).2

/-- There are no trigraphs in escaped bytes. -/
theorem replaceTrigraphs_flatMap (bytes : List UInt8) (hrest : rest.head? ≠ some '?') :
    replaceTrigraphs (bytes.flatMap escapeByte ++ rest)
      = bytes.flatMap escapeByte ++ replaceTrigraphs rest := by
  induction bytes with
  | nil => rfl
  | cons byte bytes ih =>
    rw [List.flatMap_cons, List.append_assoc, List.append_assoc,
      (escapedAs_escapeByte byte).replaceTrigraphs (head?_flatMap_escapeByte bytes hrest), ih]

/-- Escaped bytes are read up to the quote behind them. -/
theorem readBody?_flatMap (bytes : List UInt8) (rest : List Char) :
    readBody? (bytes.flatMap escapeByte ++ '"' :: rest) = some (bytes, rest) := by
  induction bytes with
  | nil => exact readBody?_quote rest
  | cons byte bytes ih =>
    have hescaped := escapedAs_escapeByte byte
    rw [List.flatMap_cons, List.append_assoc,
      readBody?_of_readByte? (hescaped.head?_ne _).1 (hescaped.readByte? _), ih]
    rfl

/-- The bytes of a text in UTF-8. -/
def utf8Bytes (text : String) : List UInt8 := text.toUTF8.data.toList

theorem length_utf8Bytes (text : String) : (utf8Bytes text).length = text.utf8ByteSize := by
  simp [utf8Bytes]

theorem toList_escape (text : String) :
    (escape text).toList = (utf8Bytes text).flatMap escapeByte := by
  simp [escape, utf8Bytes]

theorem isPrintable_escape {text : String} (hc : c ∈ (escape text).toList) :
    isPrintable c = true := by
  rw [toList_escape, List.mem_flatMap] at hc
  obtain ⟨byte, _, hc⟩ := hc
  exact (escapedAs_escapeByte byte).isPrintable hc

/-- The escaped form of a text is read as the bytes of the text, up to the closing quote. -/
theorem readBody?_escape (text : String) (rest : List Char) :
    readBody? (replaceTrigraphs ((escape text).toList ++ '"' :: rest))
      = some (utf8Bytes text, replaceTrigraphs rest) := by
  have hquote : replaceTrigraphs ('"' :: rest) = '"' :: replaceTrigraphs rest :=
    replaceTrigraphs_cons (by simp)
  rw [toList_escape, replaceTrigraphs_flatMap _ (by simp), hquote, readBody?_flatMap]

end StringBody

end ScalarC
