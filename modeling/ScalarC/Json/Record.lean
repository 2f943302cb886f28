import ScalarC.Json

/-!
# Records and variants in JSON

A record is an object, where members of other names are ignored, or an array of
its fields in order, where fields at the end may be left out if they have a
default. A variant is an object with one member, named for the variant; a variant
without data may also be just its name.

Decoders take the number of arrays and objects that may still be opened. This
bounds the nesting of a document as well as the recursion.
-/

namespace ScalarC

namespace Json

/-- What a record gives for one of its fields. -/
inductive Field where
  | given (value : Json)
  /-- Left out of an object. -/
  | unnamed
  /-- Behind the end of an array. -/
  | unlisted
deriving Repr

namespace Field

variable {α : Type}

/-- A field that has to be given. -/
def required (decode : Json → Option α) : Field → Option α
  | given value => decode value
  | unnamed | unlisted => none

/-- A value, or `null` for nothing. -/
def decodeOption (decode : Json → Option α) : Json → Option (Option α)
  | null => some none
  | value => (decode value).map some

/-- A field that may be `null`, or be left out of an object. -/
def optional (decode : Json → Option α) : Field → Option (Option α)
  | given value => decodeOption decode value
  | unnamed => some none
  | unlisted => none

/-- A field that may be left out. -/
def orElse (default : α) (decode : Json → Option α) : Field → Option α
  | given value => decode value
  | unnamed | unlisted => some default

end Field

/-- The field of an object: its name may occur once. -/
def fieldOfMembers? (members : List (String × Json)) (name : String) : Option Field :=
  match members.filter (·.1 == name) with
  | [] => some .unnamed
  | [(_, value)] => some (.given value)
  | _ => none

/-- The fields of an array: there may not be more items than fields. -/
def fieldsOfItems? : List String → List Json → Option (List Field)
  | [], [] => some []
  | [], _ :: _ => none
  | _ :: names, [] => (fieldsOfItems? names []).map (.unlisted :: ·)
  | _ :: names, item :: items => (fieldsOfItems? names items).map (.given item :: ·)

/-- The fields of a record, in the order of their names. -/
def record? (names : List String) : Json → Option (List Field)
  | object members => names.mapM (fieldOfMembers? members)
  | array items => fieldsOfItems? names items
  | _ => none

/-- The fields of a variant: a record, as an array only if `listed` says so. -/
def variantRecord? (listed : Bool) (names : List String) : Json → Option (List Field)
  | object members => record? names (object members)
  | array items => if listed then record? names (array items) else none
  | _ => none

/-- A variant that carries data: its name and the data. -/
def variant? : Json → Option (String × Json)
  | object [(name, value)] => some (name, value)
  | _ => none

/-- A variant without data, by name. -/
def plainVariant? {α : Type} (ofName? : String → Option α) : Nat → Json → Option α
  | _, string name => ofName? name
  | _ + 1, object [(name, null)] => ofName? name
  | _, _ => none

/-- The items of an array. -/
def items? {α : Type} (decode : Json → Option α) : Json → Option (List α)
  | array items => items.mapM decode
  | _ => none

/-- The items of an array, which takes one level. -/
def list? {α : Type} (decode : Nat → Json → Option α) : Nat → Json → Option (List α)
  | levels + 1, json => items? (decode levels) json
  | 0, _ => none

end Json

end ScalarC
