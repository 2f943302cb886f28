import ScalarC.Json.Diagnostic
import ScalarC.Json.Settings
import ScalarC.Proofs.Json.Form

/-!
# Units, settings and diagnostics survive JSON

What is written as JSON is read back as it was, and so is every other form of it: with
the members of records in another order, with members of unknown names, and with records
as arrays. The layout of a value marks the records in what is written.
-/

namespace ScalarC

open Layout

variable {listed : Bool}

namespace Layout

@[simp] theorem jsonItems_map {α : Type} (layout : α → Layout) (items : List α) :
    jsonItems (items.map layout) = items.map fun item => (layout item).json := by
  induction items with
  | nil => rw [List.map_nil, List.map_nil, jsonItems]
  | cons item items ih => rw [List.map_cons, List.map_cons, jsonItems, ih]

theorem json_option {α : Type} {layout : α → Layout} {toJson : α → Json}
    (h : ∀ value, (layout value).json = toJson value) (value : Option α) :
    (option layout value).json = Json.option toJson value := by
  cases value with
  | none => rw [option, Json.option, json]
  | some value => exact h value

end Layout

/-! ## Plain values -/

namespace Json

@[simp] theorem int64?_int64 (value : Int64) : (int64 value).int64? = some value := by
  have hleast := value.le_toInt
  have hgreatest := value.toInt_lt
  have hword : isWord64 value.toInt = true := by
    simp only [isWord64, Bool.and_eq_true, decide_eq_true_eq]
    omega
  simp [int64, int64?, integer?, hword]

theorem uint32?_integer {value : Int} (h : 0 ≤ value ∧ value < twoPow 32) :
    (integer value).uint32? = some (UInt32.ofNat value.toNat) := by
  simp only [uint32?, integer?, Option.bind_eq_bind, Option.bind_some]
  rw [if_pos h]

@[simp] theorem uint32?_uint32 (value : UInt32) : (uint32 value).uint32? = some value := by
  have hlt : (value.toNat : Int) < twoPow 32 := Int.ofNat_lt.2 value.toNat_lt
  rw [uint32, uint32?_integer ⟨Int.natCast_nonneg _, hlt⟩]
  simp

@[simp] theorem char?_singleton (c : Char) : (string (String.singleton c)).char? = some c := by
  simp [char?, string?]

end Json

/-- A decoder that refuses `null` can be told from nothing. -/
theorem Layout.reads_option {α : Type} {layout : α → Layout} {decode : Nat → Json → Option α}
    (hnull : ∀ levels, decode levels .null = none)
    (hreads : ∀ value, Reads listed (layout value) decode value) (value : Option α) :
    Reads listed (Layout.option layout value)
      (fun levels => Json.Field.decodeOption (decode levels)) value := by
  intro levels json h
  cases value with
  | none =>
    rw [h.plain_eq]
    rfl
  | some value =>
    have hread := hreads value _ _ h
    cases json with
    | null => simp [hnull] at hread
    | _ => simp [Json.Field.decodeOption, hread]

/-- Decoding of variants without data by their names. -/
theorem Json.plainVariant?_string {α : Type} (ofName? : String → Option α) (levels : Nat)
    (name : String) : plainVariant? ofName? levels (.string name) = ofName? name := by
  cases levels <;> rfl

theorem Scalar.reads_json (ty : Scalar) : Reads listed (.plain ty.toJson) ofJson? ty := by
  intro levels json h
  rw [h.plain_eq, ofJson?, toJson, Json.plainVariant?_string, ofName?_name]

theorem Operator.reads_json (op : Operator) : Reads listed (.plain op.toJson) ofJson? op := by
  intro levels json h
  rw [h.plain_eq, ofJson?, toJson, Json.plainVariant?_string, ofName?_name]

/-! ## Expressions -/

namespace FunctionId

def layout (id : FunctionId) : Layout :=
  .record false
    [("path", .plain (.string id.path)),
      ("module", .plain (.string id.moduleName)),
      ("name", .plain (.string id.name)),
      ("param_types", .list (id.paramTypes.map fun ty => .plain ty.toJson))]

@[simp] theorem json_layout (id : FunctionId) : id.layout.json = id.toJson := by
  simp [layout, toJson, json, jsonMembers]

theorem reads_json (id : FunctionId) : Reads listed id.layout ofJson? id := by
  intro levels json h
  obtain ⟨below, values, rfl, hfits, hrecord, -⟩ := h.record_eq (by simp)
  obtain _ | ⟨hpath, _ | ⟨hmodule, _ | ⟨hname, _ | ⟨htypes, ⟨⟩⟩⟩⟩⟩ := hfits
  obtain rfl := hpath.plain_eq
  obtain rfl := hmodule.plain_eq
  obtain rfl := hname.plain_eq
  have htypes' := reads_list (fun ty _ => ty.reads_json) _ _ htypes
  simp only [List.map_cons, List.map_nil] at hrecord
  simp [ofJson?, hrecord, Json.Field.required, Json.string?, htypes']

end FunctionId

namespace Literal

def layout (lit : Literal) : Layout :=
  .record false [("value", .plain (.int64 lit.value)), ("ty", .plain lit.ty.toJson)]

@[simp] theorem json_layout (lit : Literal) : lit.layout.json = lit.toJson := by
  simp [layout, toJson, json, jsonMembers]

theorem reads_json (lit : Literal) : Reads listed lit.layout ofJson? lit := by
  intro levels json h
  obtain ⟨below, values, rfl, hfits, hrecord, -⟩ := h.record_eq (by simp)
  obtain _ | ⟨hvalue, _ | ⟨hty, ⟨⟩⟩⟩ := hfits
  obtain rfl := hvalue.plain_eq
  simp only [List.map_cons, List.map_nil] at hrecord
  simp [ofJson?, hrecord, Json.Field.required, lit.ty.reads_json _ _ hty]

end Literal

namespace Callee

def layout : Callee → Layout
  | function id => .variant "function" id.layout
  | symbol spelling => .variant "symbol" (.plain (.string spelling))

@[simp] theorem json_layout (callee : Callee) : callee.layout.json = callee.toJson := by
  cases callee <;> simp [layout, toJson, json]

theorem reads_json (callee : Callee) : Reads listed callee.layout ofJson? callee := by
  intro levels json h
  cases callee with
  | function id =>
    obtain ⟨below, value, rfl, rfl, hdata⟩ := h.variant_eq
    simp [ofJson?, Json.variant?, id.reads_json _ _ hdata]
  | symbol spelling =>
    obtain ⟨below, value, rfl, rfl, hdata⟩ := h.variant_eq
    obtain rfl := hdata.plain_eq
    simp [ofJson?, Json.variant?, Json.string?]

end Callee

namespace Expr

mutual

def layout : Expr → Layout
  | literal lit => .variant "literal" lit.layout
  | var name => .variant "local" (.plain (.string name))
  | constant name => .variant "constant" (.plain (.string name))
  | binary op lhs rhs =>
    .variant "binary"
      (.record true [("op", .plain op.toJson), ("lhs", lhs.layout), ("rhs", rhs.layout)])
  | cast value ty =>
    .variant "cast" (.record true [("value", value.layout), ("ty", .plain ty.toJson)])
  | call callee args =>
    .variant "call" (.record true [("callee", callee.layout), ("args", .list (layouts args))])

def layouts : List Expr → List Layout
  | [] => []
  | e :: rest => e.layout :: layouts rest

end

theorem layouts_eq_map (es : List Expr) : layouts es = es.map layout := by
  induction es with
  | nil => rw [layouts, List.map_nil]
  | cons e es ih => rw [layouts, ih, List.map_cons]

mutual

@[simp] theorem json_layout (e : Expr) : e.layout.json = e.toJson := by
  cases e with
  | literal lit => simp [layout, toJson, json]
  | var name => simp [layout, toJson, json]
  | constant name => simp [layout, toJson, json]
  | binary op lhs rhs =>
    simp [layout, toJson, json, jsonMembers, json_layout lhs, json_layout rhs]
  | cast value ty => simp [layout, toJson, json, jsonMembers, json_layout value]
  | call callee args => simp [layout, toJson, json, jsonMembers, json_layouts args]

theorem json_layouts (es : List Expr) : jsonItems (layouts es) = toJsonItems es := by
  cases es with
  | nil => rw [layouts, jsonItems, toJsonItems]
  | cons e rest => rw [layouts, jsonItems, toJsonItems, json_layout e, json_layouts rest]

end

mutual

theorem reads_json (e : Expr) : Reads listed e.layout (ofJson? listed) e := by
  intro levels json h
  cases e with
  | literal lit =>
    obtain ⟨below, value, rfl, rfl, hdata⟩ := h.variant_eq
    simp [ofJson?, Json.variant?, lit.reads_json _ _ hdata]
  | var name =>
    obtain ⟨below, value, rfl, rfl, hdata⟩ := h.variant_eq
    obtain rfl := hdata.plain_eq
    simp [ofJson?, Json.variant?, Json.string?]
  | constant name =>
    obtain ⟨below, value, rfl, rfl, hdata⟩ := h.variant_eq
    obtain rfl := hdata.plain_eq
    simp [ofJson?, Json.variant?, Json.string?]
  | binary op lhs rhs =>
    rw [layout] at h
    obtain ⟨_, data, rfl, rfl, hdata⟩ := h.variant_eq
    obtain ⟨below, values, rfl, hfits, -, hrecord⟩ := hdata.record_eq (by simp)
    obtain _ | ⟨hop, _ | ⟨hlhs, _ | ⟨hrhs, ⟨⟩⟩⟩⟩ := hfits
    simp only [List.map_cons, List.map_nil, forall_const] at hrecord
    simp [ofJson?, Json.variant?, hrecord, Json.Field.required, op.reads_json _ _ hop,
      reads_json lhs _ _ hlhs, reads_json rhs _ _ hrhs]
  | cast value ty =>
    rw [layout] at h
    obtain ⟨_, data, rfl, rfl, hdata⟩ := h.variant_eq
    obtain ⟨below, values, rfl, hfits, -, hrecord⟩ := hdata.record_eq (by simp)
    obtain _ | ⟨hvalue, _ | ⟨hty, ⟨⟩⟩⟩ := hfits
    simp only [List.map_cons, List.map_nil, forall_const] at hrecord
    simp [ofJson?, Json.variant?, hrecord, Json.Field.required, reads_json value _ _ hvalue,
      ty.reads_json _ _ hty]
  | call callee args =>
    rw [layout] at h
    obtain ⟨_, data, rfl, rfl, hdata⟩ := h.variant_eq
    obtain ⟨_, values, rfl, hfits, -, hrecord⟩ := hdata.record_eq (by simp)
    obtain _ | ⟨hcallee, _ | ⟨hargs, ⟨⟩⟩⟩ := hfits
    obtain ⟨below, items, rfl, rfl, hitems⟩ := hargs.list_eq
    rw [layouts_eq_map] at hitems
    simp only [List.map_cons, List.map_nil, forall_const] at hrecord
    simp [ofJson?, Json.variant?, hrecord, Json.Field.required, callee.reads_json _ _ hcallee,
      Json.items?, mapM_of_reads (reads_all args) hitems]

theorem reads_all (es : List Expr) : ∀ e ∈ es, Reads listed e.layout (ofJson? listed) e := by
  cases es with
  | nil => simp
  | cons e rest => exact List.forall_mem_cons.2 ⟨reads_json e, reads_all rest⟩

end

theorem ofJson?_null (listed : Bool) (levels : Nat) : ofJson? listed levels .null = none := by
  cases levels <;> rfl

end Expr

/-! ## Statements -/

namespace Print

def layout : Print → Layout
  | value e => .variant "value" e.layout
  | char e => .variant "char" e.layout
  | newline => .plain (.string "newline")
  | text s => .variant "str" (.plain (.string s))

@[simp] theorem json_layout (what : Print) : what.layout.json = what.toJson := by
  cases what <;> simp [layout, toJson, json]

theorem reads_json (what : Print) : Reads listed what.layout (ofJson? listed) what := by
  intro levels json h
  cases what with
  | value e =>
    obtain ⟨below, value, rfl, rfl, hdata⟩ := h.variant_eq
    simp [ofJson?, Json.variant?, e.reads_json _ _ hdata]
  | char e =>
    obtain ⟨below, value, rfl, rfl, hdata⟩ := h.variant_eq
    simp [ofJson?, Json.variant?, e.reads_json _ _ hdata]
  | newline =>
    rw [h.plain_eq]
    cases levels <;> rfl
  | text s =>
    obtain ⟨below, value, rfl, rfl, hdata⟩ := h.variant_eq
    obtain rfl := hdata.plain_eq
    simp [ofJson?, Json.variant?, Json.string?]

end Print

namespace Statement

mutual

def layout : Statement → Layout
  | declare name ty init =>
    .variant "let"
      (.record true
        [("name", .plain (.string name)), ("ty", .plain ty.toJson),
          ("init", .option Expr.layout init)])
  | assign name value =>
    .variant "assign" (.record true [("name", .plain (.string name)), ("value", value.layout)])
  | eval e => .variant "expr" e.layout
  | ret value => .variant "return" (.option Expr.layout value)
  | branch condition thenBlock elseBlock =>
    .variant "branch"
      (.record true
        [("condition", condition.layout), ("then_block", .list (layouts thenBlock)),
          ("else_block", .list (layouts elseBlock))])
  | loop condition body =>
    .variant "loop"
      (.record true [("condition", condition.layout), ("body", .list (layouts body))])
  | print what => .variant "print" what.layout

def layouts : List Statement → List Layout
  | [] => []
  | statement :: rest => statement.layout :: layouts rest

end

theorem layouts_eq_map (block : List Statement) : layouts block = block.map layout := by
  induction block with
  | nil => rw [layouts, List.map_nil]
  | cons statement rest ih => rw [layouts, ih, List.map_cons]

mutual

@[simp] theorem json_layout (statement : Statement) :
    statement.layout.json = statement.toJson := by
  cases statement with
  | declare name ty init =>
    simp [layout, toJson, json, jsonMembers, json_option Expr.json_layout init]
  | assign name value => simp [layout, toJson, json, jsonMembers]
  | eval e => simp [layout, toJson, json]
  | ret value => simp [layout, toJson, json, json_option Expr.json_layout value]
  | branch condition thenBlock elseBlock =>
    simp [layout, toJson, json, jsonMembers, json_layouts thenBlock, json_layouts elseBlock]
  | loop condition body => simp [layout, toJson, json, jsonMembers, json_layouts body]
  | print what => simp [layout, toJson, json]

theorem json_layouts (block : List Statement) :
    jsonItems (layouts block) = toJsonItems block := by
  cases block with
  | nil => rw [layouts, jsonItems, toJsonItems]
  | cons statement rest =>
    rw [layouts, jsonItems, toJsonItems, json_layout statement, json_layouts rest]

end

mutual

theorem reads_json (statement : Statement) :
    Reads listed statement.layout (ofJson? listed) statement := by
  intro levels json h
  cases statement with
  | declare name ty init =>
    rw [layout] at h
    obtain ⟨_, data, rfl, rfl, hdata⟩ := h.variant_eq
    obtain ⟨below, values, rfl, hfits, -, hrecord⟩ := hdata.record_eq (by simp)
    obtain _ | ⟨hname, _ | ⟨hty, _ | ⟨hinit, ⟨⟩⟩⟩⟩ := hfits
    obtain rfl := hname.plain_eq
    have hvalue := reads_option (Expr.ofJson?_null listed) Expr.reads_json init _ _ hinit
    simp only [List.map_cons, List.map_nil, forall_const] at hrecord
    simp [ofJson?, Json.variant?, hrecord, Json.Field.required, Json.Field.orElse, Json.string?,
      ty.reads_json _ _ hty, hvalue]
  | assign name value =>
    rw [layout] at h
    obtain ⟨_, data, rfl, rfl, hdata⟩ := h.variant_eq
    obtain ⟨below, values, rfl, hfits, -, hrecord⟩ := hdata.record_eq (by simp)
    obtain _ | ⟨hname, _ | ⟨hvalue, ⟨⟩⟩⟩ := hfits
    obtain rfl := hname.plain_eq
    simp only [List.map_cons, List.map_nil, forall_const] at hrecord
    simp [ofJson?, Json.variant?, hrecord, Json.Field.required, Json.string?,
      value.reads_json _ _ hvalue]
  | eval e =>
    rw [layout] at h
    obtain ⟨below, data, rfl, rfl, hdata⟩ := h.variant_eq
    simp [ofJson?, Json.variant?, e.reads_json _ _ hdata]
  | ret value =>
    rw [layout] at h
    obtain ⟨below, data, rfl, rfl, hdata⟩ := h.variant_eq
    have hvalue := reads_option (Expr.ofJson?_null listed) Expr.reads_json value _ _ hdata
    simp [ofJson?, Json.variant?, hvalue]
  | branch condition thenBlock elseBlock =>
    rw [layout] at h
    obtain ⟨_, data, rfl, rfl, hdata⟩ := h.variant_eq
    obtain ⟨_, values, rfl, hfits, -, hrecord⟩ := hdata.record_eq (by simp)
    obtain _ | ⟨hcondition, _ | ⟨hthen, _ | ⟨helse, ⟨⟩⟩⟩⟩ := hfits
    obtain ⟨below, thenItems, rfl, rfl, hthenItems⟩ := hthen.list_eq
    obtain ⟨_, elseItems, hlevels, rfl, helseItems⟩ := helse.list_eq
    obtain rfl := Nat.succ.inj hlevels
    rw [layouts_eq_map] at hthenItems helseItems
    simp only [List.map_cons, List.map_nil, forall_const] at hrecord
    simp [ofJson?, Json.variant?, hrecord, Json.Field.required, Json.Field.orElse, Json.items?,
      condition.reads_json _ _ hcondition, mapM_of_reads (reads_all thenBlock) hthenItems,
      mapM_of_reads (reads_all elseBlock) helseItems]
  | loop condition body =>
    rw [layout] at h
    obtain ⟨_, data, rfl, rfl, hdata⟩ := h.variant_eq
    obtain ⟨_, values, rfl, hfits, -, hrecord⟩ := hdata.record_eq (by simp)
    obtain _ | ⟨hcondition, _ | ⟨hbody, ⟨⟩⟩⟩ := hfits
    obtain ⟨below, items, rfl, rfl, hitems⟩ := hbody.list_eq
    rw [layouts_eq_map] at hitems
    simp only [List.map_cons, List.map_nil, forall_const] at hrecord
    simp [ofJson?, Json.variant?, hrecord, Json.Field.required, Json.items?,
      condition.reads_json _ _ hcondition, mapM_of_reads (reads_all body) hitems]
  | print what =>
    rw [layout] at h
    obtain ⟨below, data, rfl, rfl, hdata⟩ := h.variant_eq
    simp [ofJson?, Json.variant?, what.reads_json _ _ hdata]

theorem reads_all (block : List Statement) :
    ∀ statement ∈ block, Reads listed statement.layout (ofJson? listed) statement := by
  cases block with
  | nil => simp
  | cons statement rest => exact List.forall_mem_cons.2 ⟨reads_json statement, reads_all rest⟩

end

end Statement

/-! ## Functions and units -/

namespace Parameter

def layout (param : Parameter) : Layout :=
  .record false [("name", .plain (.string param.name)), ("ty", .plain param.ty.toJson)]

@[simp] theorem json_layout (param : Parameter) : param.layout.json = param.toJson := by
  simp [layout, toJson, json, jsonMembers]

theorem reads_json (param : Parameter) : Reads listed param.layout ofJson? param := by
  intro levels json h
  obtain ⟨below, values, rfl, hfits, hrecord, -⟩ := h.record_eq (by simp)
  obtain _ | ⟨hname, _ | ⟨hty, ⟨⟩⟩⟩ := hfits
  obtain rfl := hname.plain_eq
  simp only [List.map_cons, List.map_nil] at hrecord
  simp [ofJson?, hrecord, Json.Field.required, Json.string?, param.ty.reads_json _ _ hty]

end Parameter

namespace Position

def layout (position : Position) : Layout :=
  .record false
    [("filename", .plain (.string position.file)),
      ("line", .plain (.uint32 position.line)),
      ("column", .plain (.uint32 position.column))]

@[simp] theorem json_layout (position : Position) : position.layout.json = position.toJson := by
  simp [layout, toJson, json, jsonMembers]

theorem reads_json (position : Position) : Reads listed position.layout ofJson? position := by
  intro levels json h
  obtain ⟨below, values, rfl, hfits, hrecord, -⟩ := h.record_eq (by simp)
  obtain _ | ⟨hfile, _ | ⟨hline, _ | ⟨hcolumn, ⟨⟩⟩⟩⟩ := hfits
  obtain rfl := hfile.plain_eq
  have hline' := congrArg Json.uint32? hline.plain_eq
  have hcolumn' := congrArg Json.uint32? hcolumn.plain_eq
  rw [Json.uint32?_uint32] at hline' hcolumn'
  simp only [List.map_cons, List.map_nil] at hrecord
  simp [ofJson?, hrecord, Json.Field.required, Json.string?, hline', hcolumn']

theorem ofJson?_null (levels : Nat) : ofJson? levels .null = none := by
  cases levels <;> rfl

end Position

namespace SourceFunction

def layout (function : SourceFunction) : Layout :=
  .record false
    [("path", .plain (.string function.path)),
      ("module", .plain (.string function.moduleName)),
      ("name", .plain (.string function.name)),
      ("params", .list (function.params.map Parameter.layout)),
      ("return_type", .option (fun ty => .plain ty.toJson) function.returnType),
      ("body", .list (function.body.map Statement.layout)),
      ("is_external", .plain (.bool function.isExternal)),
      ("location", .option Position.layout function.position)]

@[simp] theorem json_layout (function : SourceFunction) :
    function.layout.json = function.toJson := by
  have hbody : jsonItems (function.body.map Statement.layout)
      = Statement.toJsonItems function.body := by
    rw [← Statement.layouts_eq_map, Statement.json_layouts]
  have hreturn : (Layout.option (fun ty : Scalar => .plain ty.toJson) function.returnType).json
      = Json.option Scalar.toJson function.returnType :=
    json_option (fun ty => by rw [json]) function.returnType
  rw [layout, toJson]
  simp [json, jsonMembers, hbody, hreturn, json_option Position.json_layout function.position]

theorem reads_json (function : SourceFunction) :
    Reads listed function.layout (ofJson? listed) function := by
  intro levels json h
  obtain ⟨below, values, rfl, hfits, hrecord, -⟩ := h.record_eq (by simp)
  obtain _ | ⟨hpath, _ | ⟨hmodule, _ | ⟨hname, _ | ⟨hparams, _ | ⟨hreturn, _ | ⟨hbody,
    _ | ⟨hexternal, _ | ⟨hposition, ⟨⟩⟩⟩⟩⟩⟩⟩⟩⟩ := hfits
  obtain rfl := hpath.plain_eq
  obtain rfl := hmodule.plain_eq
  obtain rfl := hname.plain_eq
  obtain rfl := hexternal.plain_eq
  have hnull : ∀ levels, Scalar.ofJson? levels .null = none := by
    intro levels
    cases levels <;> rfl
  have hparams' := reads_list (fun param _ => param.reads_json) _ _ hparams
  have hreturn' := reads_option hnull Scalar.reads_json function.returnType _ _ hreturn
  have hbody' := reads_list (Statement.reads_all function.body) _ _ hbody
  have hposition' :=
    reads_option Position.ofJson?_null Position.reads_json function.position _ _ hposition
  simp only [List.map_cons, List.map_nil] at hrecord
  simp [ofJson?, fieldNames, hrecord, Json.Field.required, Json.Field.orElse, Json.string?,
    Json.bool?, hparams', hreturn', hbody', hposition']

end SourceFunction

namespace Constant

def layout (constant : Constant) : Layout :=
  .record false
    [("name", .plain (.string constant.name)), ("ty", .plain constant.ty.toJson),
      ("value", .plain (.int64 constant.value))]

@[simp] theorem json_layout (constant : Constant) : constant.layout.json = constant.toJson := by
  simp [layout, toJson, json, jsonMembers]

theorem reads_json (constant : Constant) : Reads listed constant.layout ofJson? constant := by
  intro levels json h
  obtain ⟨below, values, rfl, hfits, hrecord, -⟩ := h.record_eq (by simp)
  obtain _ | ⟨hname, _ | ⟨hty, _ | ⟨hvalue, ⟨⟩⟩⟩⟩ := hfits
  obtain rfl := hname.plain_eq
  obtain rfl := hvalue.plain_eq
  simp only [List.map_cons, List.map_nil] at hrecord
  simp [ofJson?, hrecord, Json.Field.required, Json.string?, constant.ty.reads_json _ _ hty]

end Constant

namespace SourceUnit

def layout (unit : SourceUnit) : Layout :=
  .record false
    [("name", .plain (.string unit.name)),
      ("functions", .list (unit.functions.map SourceFunction.layout)),
      ("constants", .list (unit.constants.map Constant.layout))]

@[simp] theorem json_layout (unit : SourceUnit) : unit.layout.json = unit.toJson := by
  simp [layout, toJson, json, jsonMembers]

theorem reads_json (unit : SourceUnit) : Reads listed unit.layout (ofJson? listed) unit := by
  intro levels json h
  obtain ⟨below, values, rfl, hfits, hrecord, -⟩ := h.record_eq (by simp)
  obtain _ | ⟨hname, _ | ⟨hfunctions, _ | ⟨hconstants, ⟨⟩⟩⟩⟩ := hfits
  obtain rfl := hname.plain_eq
  have hfunctions' := reads_list (fun function _ => function.reads_json) _ _ hfunctions
  have hconstants' := reads_list (fun constant _ => constant.reads_json) _ _ hconstants
  simp only [List.map_cons, List.map_nil] at hrecord
  simp [ofJson?, hrecord, Json.Field.required, Json.Field.orElse, Json.string?, hfunctions',
    hconstants']

end SourceUnit

/-! ## Settings and diagnostics -/

namespace Settings

def layout (settings : Settings) : Layout :=
  .record false
    [("mangling", .plain (.string settings.spelling.name)),
      ("param_delimiter", .plain (.string (String.singleton settings.delimiter))),
      ("runtime", .plain (.string settings.routines.name)),
      ("entry_point", .option (fun name => .plain (.string name)) settings.entry),
      ("overflow", .plain (.string settings.overflow.name)),
      ("declare_reserved_registers", .plain (.bool settings.declareReserved)),
      ("banner", .plain (.bool settings.banner))]

@[simp] theorem json_layout (settings : Settings) : settings.layout.json = settings.toJson := by
  have hentry : (Layout.option (fun name => .plain (.string name)) settings.entry).json
      = Json.option .string settings.entry :=
    json_option (fun name => by rw [json]) settings.entry
  simp [layout, toJson, json, jsonMembers, hentry]

theorem reads_json (settings : Settings) :
    Reads listed settings.layout (ofJson? listed) settings := by
  intro levels json h
  obtain ⟨below, values, rfl, hfits, hrecord, -⟩ := h.record_eq (by simp)
  obtain _ | ⟨hspelling, _ | ⟨hdelimiter, _ | ⟨hroutines, _ | ⟨hentry, _ | ⟨hoverflow,
    _ | ⟨hreserved, _ | ⟨hbanner, ⟨⟩⟩⟩⟩⟩⟩⟩⟩ := hfits
  obtain rfl := hspelling.plain_eq
  obtain rfl := hdelimiter.plain_eq
  obtain rfl := hroutines.plain_eq
  obtain rfl := hoverflow.plain_eq
  obtain rfl := hreserved.plain_eq
  obtain rfl := hbanner.plain_eq
  have hname : ∀ name : String,
      Reads listed (.plain (.string name)) (fun _ => Json.string?) name := by
    intro name levels json h
    rw [h.plain_eq]
    rfl
  have hentry' := reads_option (fun _ => rfl) hname settings.entry _ _ hentry
  have hspelling' : Spelling.ofName? settings.spelling.name = some settings.spelling := by
    cases settings.spelling <;> rfl
  have hroutines' : RoutineMode.ofName? settings.routines.name = some settings.routines := by
    cases settings.routines <;> rfl
  have hoverflow' : OverflowPolicy.ofName? settings.overflow.name = some settings.overflow := by
    cases settings.overflow <;> rfl
  simp only [List.map_cons, List.map_nil] at hrecord
  simp [ofJson?, fieldNames, hrecord, Json.Field.orElse, Json.plainVariant?_string, Json.bool?,
    hspelling', hroutines', hoverflow', hentry']

end Settings

namespace Diagnostic

def layout (diagnostic : Diagnostic) : Layout :=
  .record false
    [("severity", .plain (.string diagnostic.severity.name)),
      ("message", .plain (.string diagnostic.message)),
      ("location", .option Position.layout diagnostic.position),
      ("notes", .list (diagnostic.notes.map fun note => .plain (.string note)))]

@[simp] theorem json_layout (diagnostic : Diagnostic) :
    diagnostic.layout.json = diagnostic.toJson := by
  simp [layout, toJson, json, jsonMembers, json_option Position.json_layout diagnostic.position]

theorem reads_json (diagnostic : Diagnostic) :
    Reads listed diagnostic.layout (ofJson? listed) diagnostic := by
  intro levels json h
  obtain ⟨below, values, rfl, hfits, hrecord, -⟩ := h.record_eq (by simp)
  obtain _ | ⟨hseverity, _ | ⟨hmessage, _ | ⟨hposition, _ | ⟨hnotes, ⟨⟩⟩⟩⟩⟩ := hfits
  obtain rfl := hseverity.plain_eq
  obtain rfl := hmessage.plain_eq
  have hnote : ∀ note ∈ diagnostic.notes,
      Reads listed (.plain (.string note)) (fun _ => Json.string?) note := by
    intro note _ levels json h
    rw [h.plain_eq]
    rfl
  have hnotes' := reads_list hnote _ _ hnotes
  have hposition' := reads_option Position.ofJson?_null Position.reads_json diagnostic.position _ _
    hposition
  have hseverity' : Severity.ofName? diagnostic.severity.name = some diagnostic.severity := by
    cases diagnostic.severity <;> rfl
  simp only [List.map_cons, List.map_nil] at hrecord
  simp [ofJson?, hrecord, Json.Field.required, Json.Field.optional, Json.plainVariant?_string,
    Json.string?, hseverity', hposition', hnotes']

end Diagnostic

/-! ## Round trips -/

namespace Json

/-- A value is read back from what is written for it, and from all forms of that. -/
structure RoundTrips {α : Type} (toJson : α → Json) (layout : α → Layout)
    (ofJson? : (listed : Bool) → (levels : Nat) → Json → Option α) (value : α) : Prop where
  /-- The layout is what is written, with its records marked. -/
  written : (layout value).json = toJson value
  /-- The written value is read back, however deep it nests. -/
  back : decode? ofJson? (toJson value) = some value
  /-- So is every form of it, if there are levels for its depth. -/
  forms : ∀ listed levels json, (layout value).Form listed json → json.depth ≤ levels →
    ofJson? listed levels json = some value
  /-- As part of a larger document, every form with named fields in its variants. -/
  parts : ∀ json, (layout value).Form false json → decode? ofJson? json = some value
  /-- As a document of its own, every form up to the greatest depth. -/
  texts : ∀ text json, parse? text = some json → (layout value).Form true json →
    json.depth ≤ maxDepth → decodeText? ofJson? text = some value

theorem RoundTrips.of_reads {α : Type} {toJson : α → Json} {layout : α → Layout}
    {ofJson? : (listed : Bool) → (levels : Nat) → Json → Option α} {value : α}
    (hwritten : (layout value).json = toJson value)
    (hreads : ∀ listed, Reads listed (layout value) (ofJson? listed) value) :
    RoundTrips toJson layout ofJson? value where
  written := hwritten
  back := hreads false _ _ ⟨hwritten ▸ form_json false (layout value), Nat.le_refl _⟩
  forms listed levels json hform hdepth := hreads listed levels json ⟨hform, hdepth⟩
  parts json hform := hreads false _ _ ⟨hform, Nat.le_refl _⟩
  texts text json hparse hform hdepth := by
    rw [decodeText?, hparse]
    exact hreads true _ _ ⟨hform, hdepth⟩

/-- Units, settings and diagnostics are read back from what is written for them, also where
records are written as arrays, have their members in another order, or have members of
unknown names. -/
theorem roundTrips :
    (∀ unit : SourceUnit,
      RoundTrips SourceUnit.toJson SourceUnit.layout SourceUnit.ofJson? unit)
    ∧ (∀ settings : Settings, RoundTrips Settings.toJson Settings.layout Settings.ofJson? settings)
    ∧ ∀ diagnostic : Diagnostic,
      RoundTrips Diagnostic.toJson Diagnostic.layout Diagnostic.ofJson? diagnostic :=
  ⟨fun unit => .of_reads unit.json_layout fun _ => unit.reads_json,
    fun settings => .of_reads settings.json_layout fun _ => settings.reads_json,
    fun diagnostic => .of_reads diagnostic.json_layout fun _ => diagnostic.reads_json⟩

end Json

/-- A unit with a function that adds one to its parameter. -/
def Sample.successor : SourceUnit where
  name := "m"
  functions :=
    [{ path := ""
       moduleName := "m"
       name := "f"
       params := [⟨"n", .u8⟩]
       returnType := some .u8
       body := [.ret (some (.binary .add (.var "n") (.literal ⟨1, .u8⟩)))] }]

/-- The sum of the sample, with its literal as an array and its operands in reverse order. -/
def Sample.rearrangedSum : Json :=
  .object [("binary", .object
    [("op", .string "add"),
      ("lhs", .object [("local", .string "n")]),
      ("rhs", .object [("literal", .array [.integer 1, .string "u8"])])].reverse)]

/-- The sample with its function as an array, and its members in reverse order behind one of
an unknown name. -/
def Sample.rearranged : Json :=
  .object
    [("name", .string "m"),
      ("functions", .array
        [.array
          [.string "", .string "m", .string "f", .array [.array [.string "n", .string "u8"]],
            .string "u8", .array [.object [("return", rearrangedSum)]], .bool false, .null]]),
      ("constants", .array []),
      ("version", .integer 1)].reverse

/-- The rearranged sample is a form of the sample, and is read as the sample. -/
theorem Json.roundTrips_rearranged :
    Sample.successor.layout.Form false Sample.rearranged
      ∧ decode? SourceUnit.ofJson? Sample.rearranged = some Sample.successor := by
  have hsum : (Expr.layout (.binary .add (.var "n") (.literal ⟨1, .u8⟩))).Form false
      Sample.rearrangedSum := by
    have hliteral : (Literal.layout ⟨1, .u8⟩).Form false (.array [.integer 1, .string "u8"]) :=
      .array (.cons (.plain _) (.cons (.plain _) .nil)) (by simp)
    have hnone : ∀ other ∈ ([] : List (String × Json)), other.1 ∉ ["op", "lhs", "rhs"] := by simp
    exact .variant (.object (.cons (.plain _) (.cons (.variant (.plain _))
      (.cons (.variant hliteral) .nil))) hnone (List.reverse_perm _))
  have hfunction : ∀ function ∈ Sample.successor.functions, function.layout.Form false (.array
      [.string "", .string "m", .string "f", .array [.array [.string "n", .string "u8"]],
        .string "u8", .array [.object [("return", Sample.rearrangedSum)]], .bool false, .null]) := by
    simp only [Sample.successor, List.mem_singleton, forall_eq]
    have hparam : (Parameter.layout ⟨"n", .u8⟩).Form false (.array [.string "n", .string "u8"]) :=
      .array (.cons (.plain _) (.cons (.plain _) .nil)) (by simp)
    exact .array (.cons (.plain _) (.cons (.plain _) (.cons (.plain _)
      (.cons (.list (.cons hparam .nil)) (.cons (.plain _)
        (.cons (.list (.cons (.variant hsum) .nil)) (.cons (.plain _) (.cons (.plain _) .nil))))))))
      (by simp)
  have hform : Sample.successor.layout.Form false Sample.rearranged := by
    have hversion : ∀ other ∈ [("version", Json.integer 1)],
        other.1 ∉ ["name", "functions", "constants"] := by simp
    exact .object (.cons (.plain _) (.cons (.list (.cons (hfunction _ List.mem_cons_self) .nil))
      (.cons (.list .nil) .nil))) hversion (List.reverse_perm _)
  exact ⟨hform, (roundTrips.1 Sample.successor).parts _ hform⟩

end ScalarC
