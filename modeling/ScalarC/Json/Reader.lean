import ScalarC.Json

/-!
# Reading JSON text

A reader of strict JSON: no comments, no trailing commas, no leading zeros, no
raw control characters in strings, and nothing but blanks around the value. It
works on the list of characters and gives each value with the rest behind it.
-/

namespace ScalarC

namespace Json

namespace Reader

/-- The blanks of JSON. -/
def isBlank (c : Char) : Bool :=
  c == ' ' || c == '\n' || c == '\t' || c == '\r'

def skipBlanks (text : List Char) : List Char :=
  text.dropWhile isBlank

/-! ## Strings -/

def hexDigit? (c : Char) : Option Nat :=
  if c.isDigit then some (c.toNat - '0'.toNat)
  else if 'a' ≤ c ∧ c ≤ 'f' then some (c.toNat - 'a'.toNat + 10)
  else if 'A' ≤ c ∧ c ≤ 'F' then some (c.toNat - 'A'.toNat + 10)
  else none

/-- The code unit of a four-digit escape. -/
def codeUnit? (a b c d : Char) : Option Nat := do
  return (((← hexDigit? a) * 16 + (← hexDigit? b)) * 16 + (← hexDigit? c)) * 16 + (← hexDigit? d)

/-- The character of a one-letter escape. -/
def escape? : Char → Option Char
  | '"' => some '"'
  | '\\' => some '\\'
  | '/' => some '/'
  | 'b' => some '\x08'
  | 'f' => some '\x0c'
  | 'n' => some '\n'
  | 'r' => some '\r'
  | 't' => some '\t'
  | _ => none

/-- A string as far as it is read: its characters, last first, a leading
surrogate that waits for its partner, and whether a surrogate stayed alone. -/
structure StringPart where
  chars : List Char := []
  leading : Option Nat := none
  alone : Bool := false

namespace StringPart

/-- A leading surrogate that waits stays alone. -/
def settle (part : StringPart) : StringPart :=
  if part.leading.isSome then { part with leading := none, alone := true } else part

def push (part : StringPart) (c : Char) : StringPart :=
  let part := part.settle
  { part with chars := c :: part.chars }

/-- Adds an escaped code unit; a trailing surrogate joins the leading one right
before it. -/
def pushUnit (part : StringPart) (unit : Nat) : StringPart :=
  if 0xD800 ≤ unit ∧ unit < 0xDC00 then
    { part.settle with leading := some unit }
  else if 0xDC00 ≤ unit ∧ unit < 0xE000 then
    match part.leading with
    | some first =>
      { part with
        chars := Char.ofNat (0x10000 + (first - 0xD800) * 0x400 + (unit - 0xDC00)) :: part.chars
        leading := none }
    | none => { part with alone := true }
  else
    part.push (Char.ofNat unit)

/-- The text, unless a surrogate stayed alone. -/
def text? (part : StringPart) : Option String :=
  let part := part.settle
  if part.alone then none else some (String.ofList part.chars.reverse)

end StringPart

/-- Reads a string behind its opening quote. -/
def string (part : StringPart) : List Char → Option (Option String × List Char)
  | '"' :: rest => some (part.text?, rest)
  | '\\' :: 'u' :: a :: b :: c :: d :: rest =>
    match codeUnit? a b c d with
    | some unit => string (part.pushUnit unit) rest
    | none => none
  | '\\' :: c :: rest =>
    match escape? c with
    | some c => string (part.push c) rest
    | none => none
  | c :: rest => if c.toNat < 0x20 then none else string (part.push c) rest
  | [] => none

/-! ## Numbers -/

def naturalOfDigits (digits : List Char) : Nat :=
  digits.foldl (fun n c => n * 10 + (c.toNat - '0'.toNat)) 0

/-- The digits before a point or exponent: no leading zeros. -/
def whole (text : List Char) : Option (List Char × List Char) :=
  let (digits, rest) := text.span Char.isDigit
  match digits with
  | [] => none
  | ['0'] => some (digits, rest)
  | '0' :: _ => none
  | _ => some (digits, rest)

/-- One digit or more. -/
def someDigits (text : List Char) : Option (List Char × List Char) :=
  let (digits, rest) := text.span Char.isDigit
  if digits.isEmpty then none else some (digits, rest)

/-- A point with digits, if there is one. -/
def fraction (text : List Char) : Option (List Char × List Char) :=
  match text with
  | '.' :: rest => (someDigits rest).map fun (digits, rest) => ('.' :: digits, rest)
  | _ => some ([], text)

/-- An exponent, if there is one. -/
def exponent (text : List Char) : Option (List Char × List Char) :=
  match text with
  | e :: rest =>
    if e == 'e' || e == 'E' then
      match rest with
      | s :: behind =>
        if s == '+' || s == '-' then
          (someDigits behind).map fun (digits, rest) => (e :: s :: digits, rest)
        else
          (someDigits rest).map fun (digits, rest) => (e :: digits, rest)
      | [] => none
    else some ([], text)
  | [] => some ([], text)

/-- A number behind its sign. -/
def unsignedNumber (negative : Bool) (text : List Char) : Option (Json × List Char) := do
  let (digits, rest) ← whole text
  let (fractionPart, rest) ← fraction rest
  let (exponentPart, rest) ← exponent rest
  let value := naturalOfDigits digits
  if fractionPart.isEmpty && exponentPart.isEmpty && !(negative && value == 0) then
    return (.integer (if negative then -value else value), rest)
  else
    let written := digits ++ fractionPart ++ exponentPart
    return (.numeral (String.ofList (if negative then '-' :: written else written)), rest)

def number (text : List Char) : Option (Json × List Char) :=
  match text with
  | '-' :: rest => unsignedNumber true rest
  | _ => unsignedNumber false text

/-! ## Values -/

/-- The members of an object, unless one of the names has no text. -/
def objectOf (members : List (Option String × Json)) : Json :=
  match members.mapM fun (name, value) => name.map (·, value) with
  | some members => .object members
  | none => .unreadable

mutual

/-- Reads a value; `fuel` bounds the calls and is more than twice the length of
the text. -/
def value : (fuel : Nat) → List Char → Option (Json × List Char)
  | 0, _ => none
  | fuel + 1, text =>
    match skipBlanks text with
    | 'n' :: 'u' :: 'l' :: 'l' :: rest => some (.null, rest)
    | 't' :: 'r' :: 'u' :: 'e' :: rest => some (.bool true, rest)
    | 'f' :: 'a' :: 'l' :: 's' :: 'e' :: rest => some (.bool false, rest)
    | '"' :: rest =>
      (string {} rest).map fun
        | (some text, rest) => (.string text, rest)
        | (none, rest) => (.unreadable, rest)
    | '[' :: rest =>
      match skipBlanks rest with
      | ']' :: rest => some (.array [], rest)
      | rest => items fuel [] rest
    | '\x7b' :: rest =>
      match skipBlanks rest with
      | '\x7d' :: rest => some (.object [], rest)
      | rest => members fuel [] rest
    | text => number text

/-- Reads the items of an array that are left; those before are given last first. -/
def items : (fuel : Nat) → List Json → List Char → Option (Json × List Char)
  | 0, _, _ => none
  | fuel + 1, before, text =>
    match value fuel text with
    | none => none
    | some (item, rest) =>
      match skipBlanks rest with
      | ',' :: rest => items fuel (item :: before) rest
      | ']' :: rest => some (.array (item :: before).reverse, rest)
      | _ => none

/-- Reads the members of an object that are left; those before are given last
first. -/
def members : (fuel : Nat) → List (Option String × Json) → List Char →
    Option (Json × List Char)
  | 0, _, _ => none
  | fuel + 1, before, text =>
    match skipBlanks text with
    | '"' :: rest =>
      match string {} rest with
      | none => none
      | some (name, rest) =>
        match skipBlanks rest with
        | ':' :: rest =>
          match value fuel rest with
          | none => none
          | some (item, rest) =>
            match skipBlanks rest with
            | ',' :: rest => members fuel ((name, item) :: before) rest
            | '\x7d' :: rest => some (objectOf ((name, item) :: before).reverse, rest)
            | _ => none
        | _ => none
    | _ => none

end

end Reader

/-- The value of a JSON text. -/
def parse? (text : String) : Option Json :=
  match Reader.value (2 * text.length + 2) text.toList with
  | some (json, rest) => if (Reader.skipBlanks rest).isEmpty then some json else none
  | none => none

end Json

end ScalarC
