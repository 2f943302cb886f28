/-!
# Bodies of C string literals

A text is written byte by byte. Printable ASCII stands for itself, apart from the
backslash, the quote and the question mark (which could start a trigraph); all
other bytes are three-digit octal escapes, or the short escape if there is one.
-/

namespace ScalarC

namespace StringBody

/-- The digit for a number below eight. -/
def octalDigit (n : Nat) : Char := Char.ofNat ('0'.toNat + n % 8)

/-- A backslash and three octal digits. -/
def octalEscape (byte : UInt8) : List Char :=
  ['\\', octalDigit (byte.toNat / 64), octalDigit (byte.toNat / 8), octalDigit byte.toNat]

/-- The characters that stand for one byte. -/
def escapeByte (byte : UInt8) : List Char :=
  match Char.ofNat byte.toNat with
  | '\\' => ['\\', '\\']
  | '"' => ['\\', '"']
  | '\n' => ['\\', 'n']
  | '\t' => ['\\', 't']
  | '\r' => ['\\', 'r']
  | '?' => ['\\', '?']
  | c => if 0x20 ≤ byte && byte ≤ 0x7e then [c] else octalEscape byte

/-- The body of the literal for a text. -/
def escape (text : String) : String :=
  String.ofList (text.toUTF8.data.toList.flatMap escapeByte)

end StringBody

end ScalarC
