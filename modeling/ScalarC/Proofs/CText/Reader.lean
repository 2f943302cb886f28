import ScalarC.CText.Expr
import ScalarC.Name.Spelling

/-!
# Reading C expressions

A reader for the texts of expressions: characters are grouped into the longest possible
tokens, and tokens into unary and binary expressions by the grammar of C. Between two
parentheses at most one binary operator is accepted, so that neither precedence nor
associativity decides how a text is read.

## Main definitions

* `Token.split?`: the tokens of a text.
* `CExpr.read?`: the expression that a text spells.
-/

namespace ScalarC

/-! ## Words -/

namespace CType

def all : List CType :=
  [uint32, int32, int64] ++ Scalar.all.map scalar

/-- The type that a word names. -/
def ofWord? (word : List Char) : Option CType :=
  all.find? fun ty => ty.text.toList == word

end CType

namespace Numeral

/-- The value of a digit, in base sixteen at most. -/
def digit? (c : Char) : Option Nat :=
  if c.isDigit then some (c.toNat - '0'.toNat)
  else if 'A' ≤ c ∧ c ≤ 'F' then some (c.toNat - 'A'.toNat + 10)
  else if 'a' ≤ c ∧ c ≤ 'f' then some (c.toNat - 'a'.toNat + 10)
  else none

/-- The digits of a base, after a number that was read before them. -/
def digits? (base : Nat) : Nat → List Char → Option Nat
  | n, [] => some n
  | n, c :: rest => do
    let d ← digit? c
    if d < base then digits? base (n * base + d) rest else none

/-- A number without leading text. -/
def value? (base : Nat) (digits : List Char) : Option Nat :=
  if digits = [] then none else digits? base 0 digits

end Numeral

namespace CExpr

/-- The digits of a constant, and whether `u` follows them. -/
def splitSuffix (word : List Char) : List Char × Bool :=
  if word.getLast? = some 'u' then (word.dropLast, true) else (word, false)

/-- An integer constant. Octal constants are not accepted. -/
def constantOfWord? (word : List Char) : Option CExpr :=
  let (digits, isUnsigned) := splitSuffix word
  match digits with
  | '0' :: 'x' :: rest => (Numeral.value? 16 rest).map (hexadecimal · isUnsigned)
  | '0' :: _ :: _ => none
  | digits => (Numeral.value? 10 digits).map (decimal · isUnsigned)

/-- The words that C keeps for itself. -/
def keywords : List String :=
  ["auto", "break", "case", "char", "const", "continue", "default", "do", "double", "else",
    "enum", "extern", "float", "for", "goto", "if", "inline", "int", "long", "register",
    "restrict", "return", "short", "signed", "sizeof", "static", "struct", "switch", "typedef",
    "union", "unsigned", "void", "volatile", "while", "_Bool", "_Complex", "_Imaginary"]

/-- A constant, or the name of a variable. -/
def ofWord? (word : List Char) : Option CExpr :=
  if word.head?.any Char.isDigit then constantOfWord? word
  else if (CType.ofWord? word).isSome || keywords.contains (String.ofList word) then none
  else some (name (String.ofList word))

end CExpr

/-! ## Tokens -/

inductive Token where
  | opening
  | closing
  | operator (op : Operator)
  | word (text : List Char)
deriving DecidableEq, Repr

namespace Token

/-- The characters of operators. -/
def isMark (c : Char) : Bool :=
  "+-*/%&|^<>=!".toList.contains c

/-- Neighbours that belong to one token. -/
def joined (c d : Char) : Bool :=
  Name.isPart c && Name.isPart d || isMark c && isMark d

def ofRun? (run : List Char) : Option Token :=
  if run = ['('] then some opening
  else if run = [')'] then some closing
  else if run.all Name.isPart then some (word run)
  else (Operator.all.find? fun op => op.token.toList == run).map operator

/-- The tokens of a text. A token is as long as can be, and spaces only separate. -/
def split? (text : List Char) : Option (List Token) :=
  ((text.splitBy joined).filter (· != [' '])).mapM ofRun?

end Token

/-! ## Expressions -/

namespace CExpr

/-- A type in front of a closing parenthesis. -/
def readType? : List Token → Option (CType × List Token)
  | .word word :: .closing :: rest => (CType.ofWord? word).map (·, rest)
  | _ => none

/-- An operand, or an operator between two operands. -/
def readBinary? (operand? : List Token → Option (CExpr × List Token)) (tokens : List Token) :
    Option (CExpr × List Token) := do
  let (lhs, rest) ← operand? tokens
  match rest with
  | .operator op :: rest =>
    let (rhs, rest) ← operand? rest
    some (binary op lhs rhs, rest)
  | rest => some (lhs, rest)

/-- A unary expression, nested no deeper than `depth`, and the tokens behind it. -/
def readOperand? : Nat → List Token → Option (CExpr × List Token)
  | depth + 1, .operator .sub :: rest => do
    let (e, rest) ← readOperand? depth rest
    some (negate e, rest)
  | depth + 1, .opening :: rest =>
    match readType? rest with
    | some (ty, rest) => do
      let (e, rest) ← readOperand? depth rest
      some (cast ty e, rest)
    | none => do
      let (e, rest) ← readBinary? (readOperand? depth) rest
      match rest with
      | .closing :: rest => some (paren e, rest)
      | _ => none
  | _ + 1, .word word :: rest => (ofWord? word).map (·, rest)
  | _, _ => none

/-- The expression that a text spells. No expression is nested deeper than it has
tokens. -/
def read? (text : String) : Option CExpr := do
  let tokens ← Token.split? text.toList
  let (e, rest) ← readBinary? (readOperand? tokens.length) tokens
  if rest = [] then some e else none

end CExpr

end ScalarC
