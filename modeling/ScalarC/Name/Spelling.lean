import ScalarC.Settings

/-!
# Spelling of C names

Which texts are C identifiers, how path and module text is turned into one, and
the C names of locals and string constants. Identifiers are ASCII.
-/

namespace ScalarC

namespace Name

def isStart (c : Char) : Bool := c.isAlpha || c == '_'

def isPart (c : Char) : Bool := c.isAlphanum || c == '_'

theorem isPart_of_isStart {c : Char} (h : isStart c = true) : isPart c = true := by
  simp only [isStart, isPart, Char.isAlphanum, Bool.or_eq_true] at h ⊢
  exact h.imp_left .inl

/-- The characters that the legacy spelling keeps in paths and modules. -/
def isKept (c : Char) : Bool := c == '-' || c == '.'

/-- Whether a text is a C identifier. -/
def isIdentifier (name : String) : Bool :=
  match name.toList with
  | [] => false
  | c :: rest => isStart c && rest.all isPart

/-- The character that stands for `c` in a symbol. -/
def sanitizeChar (spelling : Spelling) (c : Char) : Char :=
  if isPart c then c
  else if spelling == .legacy && isKept c then c
  else '_'

/-- Path or module text as part of a symbol: each character is replaced on its
own, and in canonical spelling a leading digit gets an underscore in front. -/
def sanitize (spelling : Spelling) (component : String) : String :=
  let mapped := component.toList.map (sanitizeChar spelling)
  match spelling, mapped with
  | .canonical, c :: rest =>
    if c.isDigit then String.ofList ('_' :: c :: rest) else String.ofList (c :: rest)
  | _, _ => String.ofList mapped

/-- Whether a text starts like an identifier and has only allowed characters. -/
def isSpelledWith (allowed : Char → Bool) (symbol : String) : Bool :=
  match symbol.toList with
  | [] => false
  | c :: rest => isStart c && (c :: rest).all allowed

/-- Whether a text has the form of a symbol in canonical spelling. -/
def isSanitized (delimiter : Char) (symbol : String) : Bool :=
  isSpelledWith (fun c => isPart c || c == delimiter) symbol

/-- Whether a text has the form of a symbol in legacy spelling. -/
def isLegacySpelling (delimiter : Char) (symbol : String) : Bool :=
  isSpelledWith (fun c => isPart c || c == delimiter || isKept c) symbol

/-- Two legacy spellings name the same function if their keys are equal: kept
characters count as underscores, the delimiter as itself. -/
def legacyKey (delimiter : Char) (symbol : String) : String :=
  String.ofList (symbol.toList.map fun c => if isKept c && c != delimiter then '_' else c)

/-- The C name of a local or parameter. -/
def ofLocal (name : String) : String := "v_" ++ name

/-- The C name of a function's string constant. -/
def ofString (symbol : String) (index : Nat) : String :=
  symbol ++ "_str" ++ toString index

end Name

end ScalarC
