import ScalarC.Proofs.Lowering.Order
import ScalarC.Proofs.Name.CanonicalForm
import ScalarC.Proofs.Name.Derived

/-!
# Lowering the sample that adds pairs

The sample is accepted for every path and every list of pairs. Its symbols end in ways that no
reserved name does, so the path does not matter; its literals are wrapped, with a warning where
they do not fit; and no step of lowering can miss a register. The lowering of `main` follows
the list of pairs.
-/

namespace ScalarC

/-! ## Symbols -/

namespace Name

/-- A text is free if it ends in a way that no reserved name does. -/
theorem isReserved_append {tail : String}
    (hlisted : ∀ name ∈ listed, endsWith tail name = false)
    (hendings : ∀ ending ∈ ["_t", "_MAX", "_MIN", "_C"],
      endsWith ending tail = false ∧ endsWith tail ending = false) (head : String) :
    isReserved (head ++ tail) = false := by
  have htail : tail.toList <:+ (head ++ tail).toList := by
    rw [String.toList_append]
    exact List.suffix_append _ _
  by_contra hreserved
  rcases listed_or_endsWith (eq_true_of_ne_false hreserved) with hmem | ⟨ending, hmem, hends⟩
  · have hnone := hlisted _ hmem
    rw [endsWith, List.isSuffixOf_iff_suffix.2 htail] at hnone
    cases hnone
  · -- one of the two endings ends with the other
    obtain ⟨hshort, hlong⟩ := hendings ending hmem
    rcases List.suffix_or_suffix_of_suffix (List.isSuffixOf_iff_suffix.1 hends) htail with h | h
    · rw [endsWith, List.isSuffixOf_iff_suffix.2 h] at hshort
      cases hshort
    · rw [endsWith, List.isSuffixOf_iff_suffix.2 h] at hlong
      cases hlong

end Name

theorem Registry.register_of_accepts {registry : Registry} {id : FunctionId} {symbol : Symbol}
    (h : registry.Accepts id symbol) :
    registry.register id = .ok (symbol, registry.enter symbol id) := by
  rcases record_cases registry id with ⟨other, hother, heq⟩ | ⟨cause, hnone, _⟩
  · have hsame : other = symbol := by simpa [h.named] using hother.named.symm
    rw [register, heq, hsame]
  · exact absurd h (hnone symbol)

theorem Shared.Registered.resolve_of_symbolOf {shared : Shared} {functions : List SourceFunction}
    (h : shared.Registered functions) {f : SourceFunction} (hf : f ∈ functions) {symbol : Symbol}
    (hsymbol : shared.registry.symbolOf f.id = .ok symbol) :
    shared.registry.resolve f.id = .ok symbol :=
  Registry.resolve_eq_ok.2 ((h.consistent.inverse symbol f.id).1
    ((h.owner symbol f.id).2 ⟨f, hf, rfl, hsymbol⟩))

namespace Sample

/-- The symbol of the adder. -/
def addSymbol (path : String) : Symbol :=
  Registry.pathPart .canonical path ++ "simple_add_add_numbers$u8$u8"

def mainSymbol (path : String) : Symbol :=
  Registry.pathPart .canonical path ++ "simple_add_main"

theorem isReserved_addSymbol (path : String) : Name.isReserved (addSymbol path) = false :=
  Name.isReserved_append (by decide +kernel) (by decide +kernel) _

theorem isReserved_mainSymbol (path : String) : Name.isReserved (mainSymbol path) = false :=
  Name.isReserved_append (by decide +kernel) (by decide +kernel) _

theorem addSymbol_ne_mainSymbol (path : String) : addSymbol path ≠ mainSymbol path := by
  intro h
  rw [addSymbol, mainSymbol, String.append_right_inj] at h
  exact absurd h (by decide)

/-- A sample's symbols start with the path and the module. -/
theorem symbolOf_sample {registry : Registry} (hspelling : registry.spelling = .canonical)
    {id : FunctionId} (hmodule : id.moduleName = moduleName)
    (hname : Name.isIdentifier id.name = true) :
    registry.symbolOf id = .ok (Registry.pathPart .canonical id.path
      ++ ("simple_add_" ++ id.name ++ Registry.paramPart registry.delimiter id.paramTypes)) := by
  have hsanitize : Name.sanitize .canonical moduleName = moduleName :=
    Name.sanitize_of_isIdentifier (by decide)
  have hparts : moduleName ++ "_" = "simple_add_" := by decide
  refine Registry.symbolOf_eq_ok.2 ⟨by rw [hmodule]; decide, hname, ?_⟩
  rw [Registry.stem, hspelling, hmodule, hsanitize, ← hparts]
  simp only [String.append_assoc]

/-- The `main` of the sample. -/
def pairsMain (path : String) (pairs : List (Int64 × Int64)) : SourceFunction :=
  mainFunction path (pairs.flatMap (printSum path) ++ [.ret (some (.literal ⟨0, .u8⟩))])

theorem functions_addPairs (path : String) (pairs : List (Int64 × Int64)) :
    (addPairs path pairs).functions = [addNumbers path, pairsMain path pairs] := rfl

section Registration

variable {registry : Registry} (hspelling : registry.spelling = .canonical)
  (hdelimiter : registry.delimiter = '$') (path : String) (pairs : List (Int64 × Int64))

include hspelling hdelimiter

theorem symbolOf_addNumbers : registry.symbolOf (addNumbers path).id = .ok (addSymbol path) := by
  rw [symbolOf_sample hspelling rfl (show Name.isIdentifier "add_numbers" = true by decide),
    hdelimiter]
  rfl

theorem symbolOf_pairsMain :
    registry.symbolOf (pairsMain path pairs).id = .ok (mainSymbol path) := by
  rw [symbolOf_sample hspelling rfl (show Name.isIdentifier "main" = true by decide), hdelimiter]
  rfl

end Registration

/-- Neither of the two functions is refused. -/
theorem exists_ofUnit (path : String) (pairs : List (Int64 × Int64)) :
    ∃ shared, Shared.ofUnit (addPairs path pairs) {} = .ok shared := by
  let start : Registry := { spelling := .canonical, delimiter := '$' }
  have hadd : start.register (addNumbers path).id
      = .ok (addSymbol path, start.enter (addSymbol path) (addNumbers path).id) :=
    Registry.register_of_accepts
      ⟨symbolOf_addNumbers rfl rfl path, isReserved_addSymbol path, rfl⟩
  have hvacant : (start.enter (addSymbol path) (addNumbers path).id).owners.find? (mainSymbol path)
      = none := by
    rw [Registry.owner_enter, if_neg (addSymbol_ne_mainSymbol path)]
    rfl
  have hmain := Registry.register_of_accepts
    ⟨symbolOf_pairsMain rfl rfl path pairs, isReserved_mainSymbol path, hvacant⟩
  have hparams : (addNumbers path).params.find? (fun p => !Name.isIdentifier p.name) = none := by
    have hnames : [(⟨"a", .u8⟩ : Parameter), ⟨"b", .u8⟩].find? (!Name.isIdentifier ·.name)
        = none := by decide
    exact hnames
  rw [Shared.ofUnit, show Registry.ofSettings {} = .ok start from rfl, functions_addPairs]
  simp only [bind, Except.bind, Shared.registerAll, hparams, hadd, hmain]
  exact ⟨_, rfl⟩

end Sample

/-! ## Lowering -/

/-- Behind the first session there are more registers and the given warnings. -/
structure Session.Reports (s : Session) (reported : List Diagnostic) (s' : Session) : Prop where
  size_le : s.registers.size ≤ s'.registers.size
  locals : s'.locals = s.locals
  strings : s'.strings = s.strings
  aliases : s'.aliases = s.aliases
  diagnostics : s'.diagnostics = s.diagnostics ++ reported

namespace Session.Reports

variable {s s₁ s' : Session} {reported later : List Diagnostic}

theorem refl (s : Session) : s.Reports [] s :=
  ⟨Nat.le_refl _, rfl, rfl, rfl, by simp⟩

theorem trans (h : s.Reports reported s₁) (h' : s₁.Reports later s') :
    s.Reports (reported ++ later) s' where
  size_le := Nat.le_trans h.size_le h'.size_le
  locals := h'.locals.trans h.locals
  strings := h'.strings.trans h.strings
  aliases := h'.aliases.trans h.aliases
  diagnostics := by rw [h'.diagnostics, h.diagnostics, List.append_assoc]

theorem quiet (h : s.Reports reported s₁) (h' : s₁.Reports [] s') : s.Reports reported s' := by
  simpa using h.trans h'

end Session.Reports

theorem Session.reports_defined (s : Session) (ty : Scalar) : s.Reports [] (s.defined ty) :=
  ⟨by simp [defined], rfl, rfl, rfl, by simp [defined]⟩

theorem Session.has_next (s : Session) (ty : Scalar) : (s.defined ty).registers.Has s.next :=
  ⟨by simp, by simp [defined]⟩

/-- Marking a register that has a row as read succeeds. -/
theorem Lower.exists_markRead {s : Session} {r : Register} (h : s.registers.Has r) :
    ∃ s', markRead r s = .ok ((), s') ∧ s.Reports [] s' := by
  obtain ⟨table, htable⟩ := h.exists_markRead?
  refine ⟨{ s with registers := table }, markRead_ok.2 ⟨table, htable, rfl⟩, ?_⟩
  have hsize : table.size = s.registers.size := by
    rw [← RegisterTable.length_types, RegisterTable.types_markRead? htable,
      RegisterTable.length_types]
  exact ⟨hsize.ge, rfl, rfl, rfl, by simp⟩

namespace Scope

/-- Arguments that have rows can be bound. -/
theorem exists_bindArgs {sources : List Register} (types : List Scalar) {s : Session}
    (h : ∀ r ∈ sources, s.registers.Has r) :
    ∃ bound copies s', bindArgs sources types s = .ok ((bound, copies), s')
      ∧ s.Reports [] s' := by
  induction sources generalizing types s with
  | nil => exact ⟨[], [], s, rfl, .refl s⟩
  | cons src sources ih =>
    cases types with
    | nil => exact ⟨[], [], s, rfl, .refl s⟩
    | cons ty types =>
      obtain ⟨hsrc, hsources⟩ := List.forall_mem_cons.1 h
      obtain ⟨s₁, hread, hreports⟩ := Lower.exists_markRead hsrc
      have hdefined := hreports.quiet (s₁.reports_defined ty)
      obtain ⟨s₂, hread', hreports'⟩ := Lower.exists_markRead (s₁.has_next ty)
      have hthere := hdefined.quiet hreports'
      obtain ⟨bound, copies, s', hrest, hreports''⟩ := ih types fun r hr =>
        (hsources r hr).of_le hthere.size_le
      refine ⟨s₁.next :: bound, .copy s₁.next src :: copies, s', ?_, hthere.quiet hreports''⟩
      simp only [bindArgs, Lower.bind_ok, Lower.define_ok, Lower.pure_ok]
      exact ⟨(), s₁, hread, _, _, ⟨rfl, rfl⟩, (), s₂, hread', (bound, copies), s', hrest, rfl, rfl⟩

/-- Control passes the first statement, and goes on with the others. -/
theorem lowerBlock_cons {scope : Scope} {statement : Statement} {rest : List Statement}
    {s s₁ s' : Session} {flow : Flow} {ops restOps : List Op}
    (hfirst : scope.lowerStatement statement s = .ok ((.continues, ops), s₁))
    (hrest : scope.lowerBlock rest s₁ = .ok ((flow, restOps), s')) :
    scope.lowerBlock (statement :: rest) s = .ok ((flow, ops ++ restOps), s') := by
  rw [lowerBlock, Lower.bind_ok]
  refine ⟨(.continues, ops), s₁, hfirst, ?_⟩
  simp only [Lower.bind_ok, Lower.pure_ok]
  exact ⟨(flow, restOps), s', hrest, rfl, rfl⟩

end Scope

namespace Sample

/-- What is reported about a literal of `main`. -/
def warnings (value : Int64) : List Diagnostic :=
  if 0 ≤ value.toInt ∧ value.toInt ≤ 255 then []
  else
    [{ severity := .warning
       message := "in simple_add::main: literal " ++ toString value.toInt ++ " does not fit in u8"
       position := none
       notes := ["the value wraps to " ++ toString (value.toInt % 256)] }]

/-- All that is reported about the literals, in order. -/
def reports (pairs : List (Int64 × Int64)) : List Diagnostic :=
  pairs.flatMap fun pair => warnings pair.1 ++ warnings pair.2

theorem fits_byte (n : Int) : Scalar.u8.fits n = true ↔ 0 ≤ n ∧ n ≤ 255 := by
  have hmin : Scalar.u8.minValue = 0 := rfl
  have hmax : Scalar.u8.maxValue = 255 := rfl
  simp [Scalar.fits, hmin, hmax]

theorem wrap_byte (n : Int) : Scalar.u8.wrap n = n % 256 := rfl

/-- A scope in which `main` of a sample is lowered. -/
structure IsMain (path : String) (scope : Scope) : Prop where
  overflow : scope.shared.settings.overflow = .warn
  title : scope.title = "simple_add::main"
  position : scope.function.position = none
  returnType : scope.function.returnType = some .u8
  signature : scope.shared.signature? (addNumbers path).id
    = some ⟨addSymbol path, [.u8, .u8], some .u8⟩

variable {path : String} {scope : Scope}

theorem IsMain.wrapWarning_eq (h : IsMain path scope) (n wrapped : Int) :
    scope.wrapWarning n wrapped .u8
      = { severity := .warning
          message := "in simple_add::main: literal " ++ toString n ++ " does not fit in u8"
          position := none
          notes := ["the value wraps to " ++ toString wrapped] } := by
  have hstart : "in " ++ "simple_add::main" ++ ": literal " = "in simple_add::main: literal " := by
    decide
  have hend : " does not fit in " ++ Scalar.u8.name = " does not fit in u8" := by decide
  rw [Scope.wrapWarning, h.title, h.position, hstart, String.append_assoc, hend]

theorem IsMain.exists_literalValue (h : IsMain path scope) (value : Int64) (s : Session) :
    ∃ n s', scope.literalValue value.toInt .u8 s = .ok (n, s')
      ∧ s.Reports (warnings value) s' := by
  unfold Scope.literalValue
  by_cases hfits : Scalar.u8.fits value.toInt = true
  · have hnone : warnings value = [] := if_pos ((fits_byte _).1 hfits)
    rw [if_pos hfits, hnone]
    exact ⟨value.toInt, s, rfl, .refl s⟩
  · have hone : warnings value = [_] := if_neg fun h => hfits ((fits_byte _).2 h)
    simp only [if_neg hfits, hone, h.overflow, h.wrapWarning_eq, wrap_byte]
    exact ⟨_, _, rfl, Nat.le_refl _, rfl, rfl, rfl, rfl⟩

theorem IsMain.exists_lowerArgs (h : IsMain path scope) (values : List Int64) (s : Session) :
    ∃ sources ops s',
      scope.lowerArgs (values.map fun value => .literal ⟨value, .u8⟩) s = .ok ((sources, ops), s')
        ∧ s.Reports (values.flatMap warnings) s' ∧ ∀ r ∈ sources, s'.registers.Has r := by
  induction values generalizing s with
  | nil => exact ⟨[], [], s, rfl, .refl s, by simp⟩
  | cons value values ih =>
    obtain ⟨n, s₁, hvalue, hreports⟩ := h.exists_literalValue value s
    obtain ⟨sources, ops, s', hrest, hreports', hhas⟩ := ih (s₁.defined .u8)
    have hall := (hreports.quiet (s₁.reports_defined .u8)).trans hreports'
    refine ⟨s₁.next :: sources, [.loadConst s₁.next n] ++ ops, s', ?_, hall,
      List.forall_mem_cons.2 ⟨(s₁.has_next .u8).of_le hreports'.size_le, hhas⟩⟩
    simp only [List.map_cons, Scope.lowerArgs, Scope.lowerExpr, Lower.bind_ok, Lower.pure_ok]
    exact ⟨_, _, Scope.lowerLiteral_ok.2 ⟨n, s₁, hvalue, rfl, rfl, rfl⟩, (sources, ops), s',
      hrest, rfl, rfl⟩

/-- The call of the adder leaves its result in a byte. -/
theorem IsMain.exists_lowerExpr (h : IsMain path scope) (pair : Int64 × Int64) (s : Session) :
    ∃ r ops s', scope.lowerExpr (.call (.function (addNumbers path).id)
        [.literal ⟨pair.1, .u8⟩, .literal ⟨pair.2, .u8⟩]) s = .ok ((r, ops), s')
      ∧ s.Reports (warnings pair.1 ++ warnings pair.2) s'
      ∧ s'.registers.Has r ∧ s'.registers.typeOf? r = some .u8 := by
  obtain ⟨sources, argOps, s₁, hargs, hreports, hhas⟩ := h.exists_lowerArgs [pair.1, pair.2] s
  obtain ⟨bound, copies, s₂, hbind, hreports'⟩ := Scope.exists_bindArgs [.u8, .u8] hhas
  have hall := (hreports.quiet hreports').quiet (s₂.reports_defined .u8)
  refine ⟨s₂.next, argOps ++ copies ++ [.call (some s₂.next) (addSymbol path) bound],
    s₂.defined .u8, ?_, by simpa using hall, s₂.has_next .u8, s₂.typeOf?_defined .u8⟩
  simp only [Scope.lowerExpr, Scope.lowerCall, Scope.lowerCallee, h.signature, Lower.bind_ok,
    Lower.pure_ok]
  refine ⟨(some s₂.next, argOps ++ copies ++ [.call (some s₂.next) (addSymbol path) bound]),
    s₂.defined .u8, ?_, rfl⟩
  refine ⟨(addSymbol path, ⟨addSymbol path, [.u8, .u8], some .u8⟩), s, ⟨rfl, rfl⟩, ?_⟩
  rw [if_neg (by simp)]
  simp only [Lower.bind_ok, Lower.pure_ok]
  exact ⟨(sources, argOps), s₁, hargs, (bound, copies), s₂, hbind, _, _,
    Scope.resultRegister_kept.2 ⟨.u8, rfl, rfl, rfl⟩, rfl, rfl⟩

theorem IsMain.exists_lowerStatement (h : IsMain path scope) (pair : Int64 × Int64)
    (s : Session) :
    ∃ ops s', scope.lowerStatement (.print (.value (.call (.function (addNumbers path).id)
        [.literal ⟨pair.1, .u8⟩, .literal ⟨pair.2, .u8⟩]))) s = .ok ((.continues, ops), s')
      ∧ s.Reports (warnings pair.1 ++ warnings pair.2) s' := by
  obtain ⟨r, ops, s₁, hcall, hreports, hhas, hty⟩ := h.exists_lowerExpr pair s
  obtain ⟨s', hread, hreports'⟩ := Lower.exists_markRead hhas
  refine ⟨ops ++ [.print .u8 (.register r)], s', ?_, hreports.quiet hreports'⟩
  simp only [Scope.lowerStatement, Scope.lowerPrint, Lower.bind_ok, Lower.typeOf_ok]
  refine ⟨_, s', ⟨(r, ops), s₁, hcall, .u8, s₁, ⟨hty, rfl⟩, ?_⟩, rfl⟩
  simp only [Routine.printer?, Lower.bind_ok]
  exact ⟨(), s', hread, rfl⟩

theorem IsMain.exists_lowerBlock (h : IsMain path scope) (pairs : List (Int64 × Int64))
    (s : Session) :
    ∃ ops s', scope.lowerBlock (pairs.flatMap (printSum path)
        ++ [.ret (some (.literal ⟨0, .u8⟩))]) s = .ok ((.returns, ops), s')
      ∧ s.Reports (reports pairs) s' := by
  induction pairs generalizing s with
  | nil =>
    obtain ⟨n, s₁, hvalue, hreports⟩ := h.exists_literalValue 0 s
    obtain ⟨s', hread, hreports'⟩ := Lower.exists_markRead (s₁.has_next .u8)
    have hall := (hreports.quiet (s₁.reports_defined .u8)).quiet hreports'
    refine ⟨[.loadConst s₁.next n] ++ [.ret (some s₁.next)], s', ?_, hall⟩
    rw [List.flatMap_nil, List.nil_append, Scope.lowerBlock, Lower.bind_ok]
    refine ⟨(.returns, _), s', ?_, rfl⟩
    simp only [Scope.lowerStatement, Scope.lowerReturn, h.returnType, Lower.bind_ok,
      Scope.lowerExpr]
    exact ⟨_, s', ⟨_, _, Scope.lowerLiteral_ok.2 ⟨n, s₁, hvalue, rfl, rfl, rfl⟩, (), s', hread,
      rfl⟩, rfl⟩
  | cons pair pairs ih =>
    obtain ⟨ops, s₁, hfirst, hreports⟩ := h.exists_lowerStatement pair s
    obtain ⟨restOps, s', hrest, hreports'⟩ := ih s₁
    refine ⟨ops ++ ([.print .newline .nothing] ++ restOps), s', ?_, hreports.trans hreports'⟩
    exact Scope.lowerBlock_cons hfirst (Scope.lowerBlock_cons rfl hrest)

end Sample

/-! ## Functions and the unit -/

namespace Sample

variable {path : String}

/-- The session of the adder when its parameters are declared. -/
def addParams : Session where
  registers := { rows := [⟨⟨1⟩, .u8, false, false⟩, ⟨⟨2⟩, .u8, false, false⟩] }
  locals :=
    { function := "simple_add::add_numbers"
      slots := [⟨"a", .u8, true, false⟩, ⟨"b", .u8, true, false⟩]
      index := (NameTable.empty.insert "a" 0).insert "b" 1
      assigned := [0, 1] }
  indexed := ((LocalTable.indexed_new _).addSlot rfl []).addSlot rfl [0, 1]

/-- The session of the adder when its sum is returned. -/
def addReturned : Session where
  registers :=
    { rows := [⟨⟨1⟩, .u8, false, false⟩, ⟨⟨2⟩, .u8, false, false⟩, ⟨⟨3⟩, .u8, true, true⟩,
        ⟨⟨4⟩, .u8, true, true⟩, ⟨⟨5⟩, .u8, true, true⟩] }
  locals :=
    { addParams.locals with
      slots := [⟨"a", .u8, true, true⟩, ⟨"b", .u8, true, true⟩] }
  indexed := addParams.indexed.of_names rfl rfl

/-- What the adder is lowered to. -/
def adder (path : String) : FunctionLowering :=
  addReturned.lowering (addNumbers path) (addSymbol path)
    [.loadLocal ⟨3⟩ "a", .loadLocal ⟨4⟩ "b", .binary ⟨5⟩ .add ⟨3⟩ ⟨4⟩, .ret (some ⟨5⟩)]

variable {shared : Shared} {pairs : List (Int64 × Int64)}

theorem lowerParams_addNumbers (path : String) :
    Scope.lowerParams (addNumbers path).params (addNumbers path).session = .ok ((), addParams) := by
  with_unfolding_all rfl

theorem lowerBlock_addNumbers (shared : Shared) (path : String) :
    Scope.lowerBlock { shared, function := addNumbers path } (addNumbers path).body addParams
      = .ok ((.returns, (adder path).function.ops), addReturned) := by
  with_unfolding_all rfl

theorem lowers_addNumbers
    (hsymbol : shared.registry.resolve (addNumbers path).id = .ok (addSymbol path)) :
    shared.Lowers (addNumbers path) (adder path) := by
  refine Shared.lowerFunction_eq_ok.2 ⟨_, _, _, hsymbol, ?_, rfl⟩
  rw [Scope.lowerBody, Lower.bind_ok]
  refine ⟨(), addParams, lowerParams_addNumbers path, ?_⟩
  rw [Lower.bind_ok]
  exact ⟨_, addReturned, lowerBlock_addNumbers shared path, rfl⟩

/-- The `main` of the sample has no locals, strings or aliases. -/
theorem IsMain.exists_lowers (h : IsMain path { shared, function := pairsMain path pairs })
    (hsymbol : shared.registry.resolve (pairsMain path pairs).id = .ok (mainSymbol path)) :
    ∃ code, shared.Lowers (pairsMain path pairs) code
      ∧ code.function.symbol = mainSymbol path ∧ code.function.name = "main"
      ∧ code.function.ownNames = [] ∧ code.aliases = .empty ∧ code.diagnostics = reports pairs := by
  obtain ⟨ops, s', hblock, hreports⟩ := h.exists_lowerBlock pairs (pairsMain path pairs).session
  have hbody : Scope.lowerBody { shared, function := pairsMain path pairs }
      (pairsMain path pairs).session = .ok (ops, s') := by
    rw [Scope.lowerBody, Lower.bind_ok]
    refine ⟨(), (pairsMain path pairs).session, rfl, ?_⟩
    rw [Lower.bind_ok]
    exact ⟨(.returns, ops), s', hblock, rfl⟩
  refine ⟨s'.lowering (pairsMain path pairs) (mainSymbol path) ops,
    Shared.lowerFunction_eq_ok.2 ⟨_, _, _, hsymbol, hbody, rfl⟩, rfl, rfl, ?_, hreports.aliases,
    hreports.diagnostics⟩
  simp only [LoweredFunction.ownNames, Session.lowering, hreports.locals, hreports.strings]
  rfl

/-- The names of the adder's parameters are no symbols. -/
theorem ownNames_adder (path : String) :
    ∀ name ∈ (adder path).function.ownNames, name ∉ [addSymbol path, mainSymbol path] := by
  have hnames : (adder path).function.ownNames = [Name.ofLocal "a", Name.ofLocal "b"] := rfl
  have hshort : ∀ name ∈ [Name.ofLocal "a", Name.ofLocal "b"], name.length = 3 := by decide
  have hadd : 28 ≤ (addSymbol path).length := by
    rw [addSymbol, String.length_append]
    exact Nat.le_add_left _ _
  have hmain : 15 ≤ (mainSymbol path).length := by
    rw [mainSymbol, String.length_append]
    exact Nat.le_add_left _ _
  intro name hname hsymbol
  have hlength := hshort name (hnames ▸ hname)
  rcases List.mem_cons.1 hsymbol with rfl | hsymbol
  · omega
  · obtain rfl := List.mem_singleton.1 hsymbol
    omega

theorem exists_lower (path : String) (pairs : List (Int64 × Int64)) :
    ∃ lowered main, (addPairs path pairs).lower {} = .ok lowered
      ∧ lowered.diagnostics = reports pairs
      ∧ lowered.entry = some ⟨main.symbol, some .u8⟩
      ∧ lowered.functions.find? (·.symbol == main.symbol) = some main
      ∧ main.symbol = mainSymbol path ∧ main.name = "main" := by
  obtain ⟨shared, hshared⟩ := exists_ofUnit path pairs
  have hdescribes := Shared.describes_ofUnit hshared
  have hsettings := Shared.settings_ofUnit hshared
  have hadd := symbolOf_addNumbers hdescribes.spelling hdescribes.delimiter path
  have hmain := symbolOf_pairsMain hdescribes.spelling hdescribes.delimiter path pairs
  have hregistered := hdescribes.registered
  rw [functions_addPairs] at hregistered
  have hresolve := hregistered.resolve_of_symbolOf List.mem_cons_self hadd
  have hresolve' :=
    hregistered.resolve_of_symbolOf (List.mem_cons_of_mem _ List.mem_cons_self) hmain
  have hscope : IsMain path { shared, function := pairsMain path pairs } :=
    { overflow := by rw [hsettings]
      title := rfl
      position := rfl
      returnType := rfl
      signature := (hregistered.signature _ _).2
        ⟨addNumbers path, List.mem_cons_self, rfl, hadd, rfl, rfl⟩ }
  obtain ⟨code, hcode, hsymbol, hname, hown, haliases, hdiagnostics⟩ :=
    hscope.exists_lowers hresolve'
  have hsymbols : (adder path).function.symbol = addSymbol path := rfl
  have hfind : [(adder path).function, code.function].find? (·.symbol == code.function.symbol)
      = some code.function := by
    have hskip : ((adder path).function.symbol == code.function.symbol) = false := by
      rw [hsymbols, hsymbol]
      simpa using addSymbol_ne_mainSymbol path
    simp [hskip]
  have hunit : shared.LowersUnit (addPairs path pairs) [adder path, code]
      { name := moduleName
        functions := [(adder path).function, code.function]
        aliases := .empty
        entry := some ⟨code.function.symbol, some .u8⟩
        diagnostics := reports pairs } :=
    { name := rfl
      lowers := .cons (lowers_addNumbers hresolve) (.cons hcode .nil)
      functions := rfl
      diagnostics := by simp [hdiagnostics, adder, addReturned, Session.lowering]
      aliases := by
        rw [List.flatMap_cons, List.flatMap_cons, haliases]
        rfl
      checked := by
        rw [LoweredFunction.checkNames_eq_ok]
        simp only [List.forall_mem_cons, List.map_cons, List.map_nil, hown, hsymbol, hsymbols]
        exact ⟨ownNames_adder path, by simp, by simp⟩
      entry := by
        have hnamed : ((addPairs path pairs).functionsNamed "main").filter (!·.isExternal)
          = [pairsMain path pairs] := rfl
        have hparams : (pairsMain path pairs).params.isEmpty = true := rfl
        rw [Shared.entryPoint, hsettings, hsymbol]
        simp only [hnamed, hparams, if_true, hresolve']
        rfl }
  exact ⟨_, code.function, SourceUnit.lower_eq_ok.2 ⟨shared, _, hshared, hunit⟩, rfl, rfl, hfind,
    hsymbol, hname⟩

end Sample

end ScalarC
