import ScalarC.Json.Reader
import ScalarC.Json.Record
import ScalarC.Source.SourceUnit

/-!
# Units as JSON

The JSON form of units and of everything in them. Writing gives every field;
reading takes records and variants in all forms that `ScalarC.Json.Record` allows.
`levels` is the number of arrays and objects that a decoder may open, and `listed`
says whether the fields of variants may be given as arrays.
-/

namespace ScalarC

/-! ## Types and operators -/

namespace Scalar

def toJson (ty : Scalar) : Json := .string ty.name

def ofJson? : (levels : Nat) → Json → Option Scalar :=
  Json.plainVariant? ofName?

end Scalar

namespace Operator

def toJson (op : Operator) : Json := .string op.name

def ofJson? : (levels : Nat) → Json → Option Operator :=
  Json.plainVariant? ofName?

end Operator

/-! ## Expressions -/

namespace FunctionId

def toJson (id : FunctionId) : Json :=
  .object
    [("path", .string id.path),
      ("module", .string id.moduleName),
      ("name", .string id.name),
      ("param_types", .array (id.paramTypes.map Scalar.toJson))]

def ofJson? : (levels : Nat) → Json → Option FunctionId
  | 0, _ => none
  | levels + 1, json =>
    match json.record? ["path", "module", "name", "param_types"] with
    | some [path, moduleName, name, paramTypes] => do
      return {
        path := ← path.required Json.string?
        moduleName := ← moduleName.required Json.string?
        name := ← name.required Json.string?
        paramTypes := ← paramTypes.required (Json.list? Scalar.ofJson? levels) }
    | _ => none

end FunctionId

namespace Literal

def toJson (lit : Literal) : Json :=
  .object [("value", .int64 lit.value), ("ty", lit.ty.toJson)]

def ofJson? : (levels : Nat) → Json → Option Literal
  | 0, _ => none
  | levels + 1, json =>
    match json.record? ["value", "ty"] with
    | some [value, ty] => do
      return { value := ← value.required Json.int64?, ty := ← ty.required (Scalar.ofJson? levels) }
    | _ => none

end Literal

namespace Callee

def toJson : Callee → Json
  | function id => .object [("function", id.toJson)]
  | symbol spelling => .object [("symbol", .string spelling)]

def ofJson? : (levels : Nat) → Json → Option Callee
  | 0, _ => none
  | levels + 1, json =>
    match json.variant? with
    | some ("function", data) => (FunctionId.ofJson? levels data).map function
    | some ("symbol", data) => data.string?.map symbol
    | _ => none

end Callee

namespace Expr

mutual

def toJson : Expr → Json
  | literal lit => .object [("literal", lit.toJson)]
  | var name => .object [("local", .string name)]
  | constant name => .object [("constant", .string name)]
  | binary op lhs rhs =>
    .object [("binary",
      .object [("op", op.toJson), ("lhs", lhs.toJson), ("rhs", rhs.toJson)])]
  | cast value ty =>
    .object [("cast", .object [("value", value.toJson), ("ty", ty.toJson)])]
  | call callee args =>
    .object [("call",
      .object [("callee", callee.toJson), ("args", .array (toJsonItems args))])]

def toJsonItems : List Expr → List Json
  | [] => []
  | e :: rest => e.toJson :: toJsonItems rest

end

/-- The variant takes one level, the fields of its data another, and a list of
arguments a third. -/
def ofJson? (listed : Bool) : (levels : Nat) → Json → Option Expr
  | 0, _ => none
  | levels + 1, json =>
    match json.variant? with
    | some ("literal", data) => (Literal.ofJson? levels data).map literal
    | some ("local", data) => data.string?.map var
    | some ("constant", data) => data.string?.map constant
    | some ("binary", data) =>
      match levels, data.variantRecord? listed ["op", "lhs", "rhs"] with
      | levels + 1, some [op, lhs, rhs] => do
        return binary (← op.required (Operator.ofJson? levels))
          (← lhs.required (ofJson? listed levels)) (← rhs.required (ofJson? listed levels))
      | _, _ => none
    | some ("cast", data) =>
      match levels, data.variantRecord? listed ["value", "ty"] with
      | levels + 1, some [value, ty] => do
        return cast (← value.required (ofJson? listed levels))
          (← ty.required (Scalar.ofJson? levels))
      | _, _ => none
    | some ("call", data) =>
      match levels, data.variantRecord? listed ["callee", "args"] with
      | levels + 2, some [callee, args] => do
        return call (← callee.required (Callee.ofJson? (levels + 1)))
          (← args.required (Json.items? (ofJson? listed levels)))
      | _, _ => none
    | _ => none

end Expr

/-! ## Statements -/

namespace Print

def toJson : Print → Json
  | value e => .object [("value", e.toJson)]
  | char e => .object [("char", e.toJson)]
  | newline => .string "newline"
  | text s => .object [("str", .string s)]

/-- The only printout without data. -/
def ofName? (name : String) : Option Print :=
  if name = "newline" then some newline else none

def ofJson? (listed : Bool) (levels : Nat) (json : Json) : Option Print :=
  match levels, json.variant? with
  | levels + 1, some ("value", data) => (Expr.ofJson? listed levels data).map value
  | levels + 1, some ("char", data) => (Expr.ofJson? listed levels data).map char
  | _ + 1, some ("str", data) => data.string?.map text
  | levels, _ => Json.plainVariant? ofName? levels json

end Print

namespace Statement

mutual

def toJson : Statement → Json
  | declare name ty init =>
    .object [("let",
      .object [("name", .string name), ("ty", ty.toJson), ("init", Json.option Expr.toJson init)])]
  | assign name value =>
    .object [("assign", .object [("name", .string name), ("value", value.toJson)])]
  | eval e => .object [("expr", e.toJson)]
  | ret value => .object [("return", Json.option Expr.toJson value)]
  | branch condition thenBlock elseBlock =>
    .object [("branch",
      .object
        [("condition", condition.toJson),
          ("then_block", .array (toJsonItems thenBlock)),
          ("else_block", .array (toJsonItems elseBlock))])]
  | loop condition body =>
    .object [("loop",
      .object [("condition", condition.toJson), ("body", .array (toJsonItems body))])]
  | print what => .object [("print", what.toJson)]

def toJsonItems : List Statement → List Json
  | [] => []
  | statement :: rest => statement.toJson :: toJsonItems rest

end

/-- The variant takes one level, the fields of its data another, and a nested
block a third. -/
def ofJson? (listed : Bool) : (levels : Nat) → Json → Option Statement
  | 0, _ => none
  | levels + 1, json =>
    match json.variant? with
    | some ("let", data) =>
      match levels, data.variantRecord? listed ["name", "ty", "init"] with
      | levels + 1, some [name, ty, init] => do
        return declare (← name.required Json.string?) (← ty.required (Scalar.ofJson? levels))
          (← init.orElse none (Json.Field.decodeOption (Expr.ofJson? listed levels)))
      | _, _ => none
    | some ("assign", data) =>
      match levels, data.variantRecord? listed ["name", "value"] with
      | levels + 1, some [name, value] => do
        return assign (← name.required Json.string?)
          (← value.required (Expr.ofJson? listed levels))
      | _, _ => none
    | some ("expr", data) => (Expr.ofJson? listed levels data).map eval
    | some ("return", data) =>
      (Json.Field.decodeOption (Expr.ofJson? listed levels) data).map ret
    | some ("branch", data) =>
      match levels, data.variantRecord? listed ["condition", "then_block", "else_block"] with
      | levels + 2, some [condition, thenBlock, elseBlock] => do
        return branch (← condition.required (Expr.ofJson? listed (levels + 1)))
          (← thenBlock.required (Json.items? (ofJson? listed levels)))
          (← elseBlock.orElse [] (Json.items? (ofJson? listed levels)))
      | _, _ => none
    | some ("loop", data) =>
      match levels, data.variantRecord? listed ["condition", "body"] with
      | levels + 2, some [condition, body] => do
        return loop (← condition.required (Expr.ofJson? listed (levels + 1)))
          (← body.required (Json.items? (ofJson? listed levels)))
      | _, _ => none
    | some ("print", data) => (Print.ofJson? listed levels data).map print
    | _ => none

end Statement

/-! ## Functions and units -/

namespace Parameter

def toJson (param : Parameter) : Json :=
  .object [("name", .string param.name), ("ty", param.ty.toJson)]

def ofJson? : (levels : Nat) → Json → Option Parameter
  | 0, _ => none
  | levels + 1, json =>
    match json.record? ["name", "ty"] with
    | some [name, ty] => do
      return { name := ← name.required Json.string?, ty := ← ty.required (Scalar.ofJson? levels) }
    | _ => none

end Parameter

namespace Position

def toJson (position : Position) : Json :=
  .object
    [("filename", .string position.file),
      ("line", .uint32 position.line),
      ("column", .uint32 position.column)]

def ofJson? : (levels : Nat) → Json → Option Position
  | 0, _ => none
  | _ + 1, json =>
    match json.record? ["filename", "line", "column"] with
    | some [file, line, column] => do
      return {
        file := ← file.required Json.string?
        line := ← line.required Json.uint32?
        column := ← column.required Json.uint32? }
    | _ => none

end Position

namespace SourceFunction

def toJson (function : SourceFunction) : Json :=
  .object
    [("path", .string function.path),
      ("module", .string function.moduleName),
      ("name", .string function.name),
      ("params", .array (function.params.map Parameter.toJson)),
      ("return_type", Json.option Scalar.toJson function.returnType),
      ("body", .array (Statement.toJsonItems function.body)),
      ("is_external", .bool function.isExternal),
      ("location", Json.option Position.toJson function.position)]

def fieldNames : List String :=
  ["path", "module", "name", "params", "return_type", "body", "is_external", "location"]

def ofJson? (listed : Bool) : (levels : Nat) → Json → Option SourceFunction
  | 0, _ => none
  | levels + 1, json =>
    match json.record? fieldNames with
    | some [path, moduleName, name, params, returnType, body, isExternal, position] => do
      return {
        path := ← path.required Json.string?
        moduleName := ← moduleName.required Json.string?
        name := ← name.required Json.string?
        params := ← params.orElse [] (Json.list? Parameter.ofJson? levels)
        returnType := ← returnType.orElse none (Json.Field.decodeOption (Scalar.ofJson? levels))
        body := ← body.orElse [] (Json.list? (Statement.ofJson? listed) levels)
        isExternal := ← isExternal.orElse false Json.bool?
        position := ← position.orElse none (Json.Field.decodeOption (Position.ofJson? levels)) }
    | _ => none

end SourceFunction

namespace Constant

def toJson (constant : Constant) : Json :=
  .object
    [("name", .string constant.name), ("ty", constant.ty.toJson), ("value", .int64 constant.value)]

def ofJson? : (levels : Nat) → Json → Option Constant
  | 0, _ => none
  | levels + 1, json =>
    match json.record? ["name", "ty", "value"] with
    | some [name, ty, value] => do
      return {
        name := ← name.required Json.string?
        ty := ← ty.required (Scalar.ofJson? levels)
        value := ← value.required Json.int64? }
    | _ => none

end Constant

namespace SourceUnit

def toJson (unit : SourceUnit) : Json :=
  .object
    [("name", .string unit.name),
      ("functions", .array (unit.functions.map SourceFunction.toJson)),
      ("constants", .array (unit.constants.map Constant.toJson))]

def ofJson? (listed : Bool) : (levels : Nat) → Json → Option SourceUnit
  | 0, _ => none
  | levels + 1, json =>
    match json.record? ["name", "functions", "constants"] with
    | some [name, functions, constants] => do
      return {
        name := ← name.required Json.string?
        functions := ← functions.orElse [] (Json.list? (SourceFunction.ofJson? listed) levels)
        constants := ← constants.orElse [] (Json.list? Constant.ofJson? levels) }
    | _ => none

end SourceUnit

/-! ## Documents -/

namespace Json

/-- How deep a document may nest. -/
def maxDepth : Nat := 127

/-- Decodes a value that is part of a larger document: any depth is fine, and the
fields of variants have names. -/
def decode? {α : Type} (ofJson? : (listed : Bool) → (levels : Nat) → Json → Option α)
    (json : Json) : Option α :=
  ofJson? false json.depth json

/-- Decodes a document of its own: its depth is bounded, and the fields of variants
may be listed. -/
def decodeText? {α : Type} (ofJson? : (listed : Bool) → (levels : Nat) → Json → Option α)
    (text : String) : Option α :=
  (parse? text).bind (ofJson? true maxDepth)

end Json

end ScalarC
