import ScalarC.Json.Record
import ScalarC.Settings

/-!
# Settings as JSON

Every field of the record may be left out and has its default then.
-/

namespace ScalarC

namespace Spelling

def name : Spelling → String
  | canonical => "canonical"
  | legacy => "legacy"

def ofName? : String → Option Spelling
  | "canonical" => some canonical
  | "legacy" => some legacy
  | _ => none

end Spelling

namespace RoutineMode

def name : RoutineMode → String
  | included => "inline"
  | linked => "extern"

def ofName? : String → Option RoutineMode
  | "inline" => some included
  | "extern" => some linked
  | _ => none

end RoutineMode

namespace OverflowPolicy

def name : OverflowPolicy → String
  | warn => "warn"
  | reject => "error"

def ofName? : String → Option OverflowPolicy
  | "warn" => some warn
  | "error" => some reject
  | _ => none

end OverflowPolicy

namespace Settings

def toJson (settings : Settings) : Json :=
  .object
    [("mangling", .string settings.spelling.name),
      ("param_delimiter", .string (String.singleton settings.delimiter)),
      ("runtime", .string settings.routines.name),
      ("entry_point", Json.option .string settings.entry),
      ("overflow", .string settings.overflow.name),
      ("declare_reserved_registers", .bool settings.declareReserved),
      ("banner", .bool settings.banner)]

def fieldNames : List String :=
  ["mangling", "param_delimiter", "runtime", "entry_point", "overflow",
    "declare_reserved_registers", "banner"]

/-- The fields are no variants, so that `listed` plays no part. -/
def ofJson? (_listed : Bool) : (levels : Nat) → Json → Option Settings
  | 0, _ => none
  | levels + 1, json =>
    let default : Settings := {}
    match json.record? fieldNames with
    | some [spelling, delimiter, routines, entry, overflow, declareReserved, banner] => do
      return {
        spelling := ← spelling.orElse default.spelling
          (Json.plainVariant? Spelling.ofName? levels)
        delimiter := ← delimiter.orElse default.delimiter Json.char?
        routines := ← routines.orElse default.routines
          (Json.plainVariant? RoutineMode.ofName? levels)
        entry := ← entry.orElse default.entry (Json.Field.decodeOption Json.string?)
        overflow := ← overflow.orElse default.overflow
          (Json.plainVariant? OverflowPolicy.ofName? levels)
        declareReserved := ← declareReserved.orElse default.declareReserved Json.bool?
        banner := ← banner.orElse default.banner Json.bool? }
    | _ => none

end Settings

end ScalarC
