import ScalarC.Json

/-!
# Writing JSON text

The compact text of a value. Only quotes, backslashes and control characters are
escaped.
-/

namespace ScalarC

namespace Json

/-- The text of a character inside a string. -/
def escapeChar (c : Char) : String :=
  match c with
  | '"' => "\\\""
  | '\\' => "\\\\"
  | '\n' => "\\n"
  | '\r' => "\\r"
  | '\t' => "\\t"
  | c =>
    if c.toNat < 0x20 then
      "\\u00" ++ String.ofList [Nat.digitChar (c.toNat / 16), Nat.digitChar (c.toNat % 16)]
    else
      String.singleton c

def quote (text : String) : String :=
  "\"" ++ String.join (text.toList.map escapeChar) ++ "\""

mutual

/-- The compact text of a value. -/
def text : Json → String
  | null | unreadable => "null"
  | bool value => if value then "true" else "false"
  | integer value => toString value
  | numeral written => written
  | string s => quote s
  | array items => "[" ++ ",".intercalate (textOfItems items) ++ "]"
  | object members => "\x7b" ++ ",".intercalate (textOfMembers members) ++ "\x7d"

def textOfItems : List Json → List String
  | [] => []
  | item :: rest => item.text :: textOfItems rest

def textOfMembers : List (String × Json) → List String
  | [] => []
  | (name, value) :: rest => (quote name ++ ":" ++ value.text) :: textOfMembers rest

end

end Json

end ScalarC
