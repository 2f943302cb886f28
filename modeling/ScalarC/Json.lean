import ScalarC.Word

/-!
# JSON values

Values as a document gives them: members in order, repeated names included. A
numeral that is not a plain integer is kept as written, since no part of a unit
accepts it. Strings with an unpaired surrogate are well-formed JSON without a
text; such a string, and an object with such a name, is `unreadable`.
-/

namespace ScalarC

inductive Json where
  | null
  | bool (value : Bool)
  | integer (value : Int)
  /-- A numeral with a fraction, an exponent, or a minus before zero. -/
  | numeral (text : String)
  | string (text : String)
  | array (items : List Json)
  | object (members : List (String × Json))
  | unreadable
deriving Repr

namespace Json

mutual

/-- How many arrays and objects are nested. -/
def depth : Json → Nat
  | array items => depthOfItems items + 1
  | object members => depthOfMembers members + 1
  | _ => 0

def depthOfItems : List Json → Nat
  | [] => 0
  | item :: rest => max item.depth (depthOfItems rest)

def depthOfMembers : List (String × Json) → Nat
  | [] => 0
  | (_, value) :: rest => max value.depth (depthOfMembers rest)

end

def string? : Json → Option String
  | string text => some text
  | _ => none

def bool? : Json → Option Bool
  | bool value => some value
  | _ => none

def integer? : Json → Option Int
  | integer value => some value
  | _ => none

/-- A 64-bit signed integer. -/
def int64? (json : Json) : Option Int64 := do
  let value ← json.integer?
  if isWord64 value then some (Int64.ofInt value) else none

/-- A 32-bit unsigned integer. -/
def uint32? (json : Json) : Option UInt32 := do
  let value ← json.integer?
  if 0 ≤ value ∧ value < twoPow 32 then some (UInt32.ofNat value.toNat) else none

/-- A string of exactly one character. -/
def char? (json : Json) : Option Char := do
  match (← json.string?).toList with
  | [c] => some c
  | _ => none

/-- The member with a name. -/
def member? (name : String) : Json → Option Json
  | object members => members.lookup name
  | _ => none

def int64 (value : Int64) : Json := integer value.toInt

def uint32 (value : UInt32) : Json := integer value.toNat

/-- `null` for nothing. -/
def option {α : Type} (toJson : α → Json) : Option α → Json
  | some value => toJson value
  | none => null

end Json

end ScalarC
