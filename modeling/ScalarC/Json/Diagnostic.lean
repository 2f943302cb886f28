import ScalarC.Json.Source

/-!
# Diagnostics as JSON

No field has a default; only the position may be left out of an object.
-/

namespace ScalarC

namespace Severity

def name : Severity → String
  | error => "Error"
  | warning => "Warning"
  | note => "Note"

def ofName? : String → Option Severity
  | "Error" => some error
  | "Warning" => some warning
  | "Note" => some note
  | _ => none

end Severity

namespace Diagnostic

def toJson (diagnostic : Diagnostic) : Json :=
  .object
    [("severity", .string diagnostic.severity.name),
      ("message", .string diagnostic.message),
      ("location", Json.option Position.toJson diagnostic.position),
      ("notes", .array (diagnostic.notes.map .string))]

/-- The fields are no variants, so that `listed` plays no part. -/
def ofJson? (_listed : Bool) : (levels : Nat) → Json → Option Diagnostic
  | 0, _ => none
  | levels + 1, json =>
    match json.record? ["severity", "message", "location", "notes"] with
    | some [severity, message, position, notes] => do
      return {
        severity := ← severity.required (Json.plainVariant? Severity.ofName? levels)
        message := ← message.required Json.string?
        position := ← position.optional (Position.ofJson? levels)
        notes := ← notes.required (Json.list? (fun _ => Json.string?) levels) }
    | _ => none

end Diagnostic

end ScalarC
