import ScalarC.Proofs.CText.OpBlocks
import ScalarC.Proofs.Lowering.Routines
import ScalarC.Proofs.Name.CanonicalSpelling

/-!
# The text of a function tells the function

The lines of a definition are read back: the comment gives the name, the signature the return
type, the symbol and the parameters, the declarations the other locals and the registers. The
first line that starts an operation ends this prelude, and the rest gives the operations. All
this rests on names that are words, and on callees that are no print routines, which holds of
every lowered function in canonical spelling. Two lowered functions with the same text are
therefore the same, except for what no text shows.
-/

namespace ScalarC

/-! ## Lines of a text -/

theorem toList_unlines (lines : List String) :
    (unlines lines).toList = ['\n'].intercalate (lines.map String.toList ++ [[]]) := by
  induction lines with
  | nil => rfl
  | cons line lines ih =>
    obtain ⟨next, rest, hcons⟩ :=
      List.exists_cons_of_ne_nil (show lines.map String.toList ++ [[]] ≠ [] by simp)
    have hfirst : (unlines (line :: lines)).toList
        = line.toList ++ '\n' :: (unlines lines).toList := by
      simp [unlines]
    rw [hfirst, ih, List.map_cons, List.cons_append, hcons, List.intercalate_cons_cons]
    simp

/-- A text tells its lines. -/
theorem unlines_inj {lines lines' : List String} (h : ∀ line ∈ lines, '\n' ∉ line.toList)
    (h' : ∀ line ∈ lines', '\n' ∉ line.toList) (heq : unlines lines = unlines lines') :
    lines = lines' := by
  have hsplit : ∀ lines : List String, (∀ line ∈ lines, '\n' ∉ line.toList) →
      (unlines lines).toList.splitOn '\n' = lines.map String.toList ++ [[]] := by
    intro lines hlines
    rw [toList_unlines]
    refine List.splitOn_intercalate '\n' (List.forall_mem_append.2 ⟨?_, by simp⟩) (by simp)
    simpa using hlines
  have hlines := hsplit lines h
  rw [heq, hsplit lines' h', List.append_cancel_right_eq] at hlines
  exact (List.map_injective_iff.2 (fun _ _ => String.toList_injective) hlines).symm

namespace LoweredFunction

/-- The names in the text of a function can be read. -/
structure Legible (code : LoweredFunction) : Prop where
  name : '\n' ∉ code.name.toList
  symbol : Line.IsWord code.symbol.toList
  params : ∀ param ∈ code.params, Name.isIdentifier param.name = true
  locals : ∀ slot ∈ code.locals, Name.isIdentifier slot.name = true
  ops : ∀ op ∈ Op.nestedAll code.ops, op.Legible

variable {f g code : LoweredFunction} {settings : Settings}

/-! ## Declarations -/

/-- The type and the name that a line declares. -/
def declarationOfLine? (line : String) : Option (Scalar × String) :=
  let text := line.toList.drop 4
  (Scalar.ofName? (String.ofList (text.takeWhile Line.isWordChar))).map
    (·, String.ofList ((text.dropWhile Line.isWordChar).tail.takeWhile Line.isWordChar))

/-- Whether a line of a body starts an operation. -/
def startsOp (line : String) : Bool := (Op.ofLine? (line.toList.drop 4)).isSome

theorem drop_declaration (ty : Scalar) (name : String) :
    (declaration ty name).toList.drop 4
      = ty.name.toList ++ ' ' :: (name.toList ++ ' ' :: ['=', ' ', '0', ';']) := by
  simp [declaration]

theorem drop_unused (name : String) :
    (unused name).toList.drop 4 = '(' :: ("void)".toList ++ name.toList ++ [';']) := by
  simp [unused]

theorem declarationOfLine?_declaration {name : String} (ty : Scalar)
    (hname : Line.IsWord name.toList) :
    declarationOfLine? (declaration ty name) = some (ty, name) := by
  have hty := Line.isWord_scalar ty
  rw [declarationOfLine?, drop_declaration, hty.takeWhile (by decide), hty.dropWhile (by decide),
    List.tail_cons, hname.takeWhile (by decide), String.ofList_toList, String.ofList_toList,
    Scalar.ofName?_name, Option.map_some]

theorem declarationOfLine?_unused (name : String) : declarationOfLine? (unused name) = none := by
  rw [declarationOfLine?, drop_unused]
  rfl

theorem declarationOfLine?_empty : declarationOfLine? "" = none := by
  decide

/-- A word behind a word and a blank is no operation, except behind `return`. -/
theorem startsOp_declaration {name : String} (ty : Scalar) (hname : Line.IsWord name.toList) :
    startsOp (declaration ty name) = false := by
  obtain ⟨c, rest, hcons⟩ := List.exists_cons_of_ne_nil hname.ne_nil
  have hc : Line.isWordChar c = true := hname.chars c (by simp [hcons])
  have hopening : c ≠ '(' := by
    rintro rfl
    exact absurd hc (by decide)
  have hequals : c ≠ '=' := by
    rintro rfl
    exact absurd hc (by decide)
  have hreturn : ty.name.toList ≠ ['r', 'e', 't', 'u', 'r', 'n'] := by cases ty <;> decide
  rw [startsOp, drop_declaration, Op.ofLine?_word (Line.isWord_scalar ty) (by decide), hcons]
  simp [Op.ofWord?, hopening, hequals, hreturn]

theorem startsOp_unused (name : String) : startsOp (unused name) = false := by
  rw [startsOp, drop_unused]
  rfl

theorem Legible.isWord_declared (h : code.Legible) (settings : Settings) :
    ∀ d ∈ code.declarations settings, Line.IsWord d.2.toList := by
  intro d hd
  rcases List.mem_append.1 hd with hd | hd
  · obtain ⟨slot, hslot, rfl⟩ := List.mem_map.1 hd
    exact Line.isWord_ofLocal (h.locals slot (List.mem_filter.1 hslot).1)
  · obtain ⟨row, _, rfl⟩ := List.mem_map.1 hd
    exact Line.isWord_register row.register

theorem Legible.isWord_voided (h : code.Legible) (settings : Settings) :
    ∀ name ∈ code.voided settings, Line.IsWord name.toList := by
  intro name hname
  rcases List.mem_append.1 hname with hname | hname
  · obtain ⟨slot, hslot, rfl⟩ := List.mem_map.1 hname
    exact Line.isWord_ofLocal (h.locals slot (List.mem_filter.1 hslot).1)
  · obtain ⟨row, _, rfl⟩ := List.mem_map.1 hname
    exact Line.isWord_register row.register

/-- The empty line between the header and the operations, if there are both. -/
def separator (settings : Settings) (code : LoweredFunction) : List String :=
  if (code.headerLines settings).isEmpty || code.ops.isEmpty then [] else [""]

theorem eq_of_mem_separator {line : String} (h : line ∈ code.separator settings) : line = "" := by
  unfold separator at h
  split at h
  · cases h
  · exact List.mem_singleton.1 h

/-- The lines between the signature and the operations. -/
def preludeLines (settings : Settings) (code : LoweredFunction) : List String :=
  (code.declarations settings).map (fun d => declaration d.1 d.2)
    ++ ((code.voided settings).map unused ++ code.separator settings)

/-- What holds of declarations, of `(void)` lines and of an empty line holds of the prelude. -/
theorem Legible.forall_prelude (h : code.Legible) {P : String → Prop}
    (hdeclared : ∀ ty name, Line.IsWord name.toList → P (declaration ty name))
    (hvoided : ∀ name, Line.IsWord name.toList → P (unused name)) (hempty : P "") :
    ∀ line ∈ code.preludeLines settings, P line := by
  refine List.forall_mem_append.2 ⟨?_, List.forall_mem_append.2 ⟨?_, ?_⟩⟩
  · intro line hline
    obtain ⟨d, hd, rfl⟩ := List.mem_map.1 hline
    exact hdeclared d.1 d.2 (h.isWord_declared settings d hd)
  · intro line hline
    obtain ⟨name, hname, rfl⟩ := List.mem_map.1 hline
    exact hvoided name (h.isWord_voided settings name hname)
  · intro line hline
    rw [eq_of_mem_separator hline]
    exact hempty

/-- The declarations are read back from the prelude. -/
theorem Legible.filterMap_prelude (h : code.Legible) (settings : Settings) :
    (code.preludeLines settings).filterMap declarationOfLine? = code.declarations settings := by
  have hdeclared : ((code.declarations settings).map (fun d => declaration d.1 d.2)).filterMap
      declarationOfLine? = code.declarations settings := by
    rw [List.filterMap_map]
    refine (List.filterMap_congr fun d hd => ?_).trans List.filterMap_some
    rw [Function.comp_apply, declarationOfLine?_declaration d.1 (h.isWord_declared settings d hd)]
  have hvoided : ((code.voided settings).map unused).filterMap declarationOfLine? = [] := by
    simp [declarationOfLine?_unused]
  have hseparator : (code.separator settings).filterMap declarationOfLine? = [] := by
    refine List.filterMap_eq_nil_iff.2 fun line hline => ?_
    rw [eq_of_mem_separator hline, declarationOfLine?_empty]
  rw [preludeLines, List.filterMap_append, List.filterMap_append, hdeclared, hvoided, hseparator]
  simp

/-! ## Locals and registers -/

/-- The local that a declaration is about, with its type. -/
def localOfDeclaration? (d : Scalar × String) : Option (String × Scalar) :=
  if d.2.toList.head? = some 'v' then some (String.ofList (d.2.toList.drop 2), d.1) else none

def registerOfDeclaration? (d : Scalar × String) : Option (Register × Scalar) :=
  if d.2.toList.head? = some 'v' then none else some (.ofText d.2.toList, d.1)

theorem filterMap_localOfDeclaration? (settings : Settings) (code : LoweredFunction) :
    (code.declarations settings).filterMap localOfDeclaration?
      = (code.locals.filter (!·.isParam)).map fun slot => (slot.name, slot.ty) := by
  have hlocal : ∀ slot : LocalSlot,
      localOfDeclaration? (slot.ty, Name.ofLocal slot.name) = some (slot.name, slot.ty) := by
    intro slot
    simp [localOfDeclaration?, Name.toList_ofLocal]
  have hregister : ∀ row : RegisterRow,
      localOfDeclaration? (row.ty, row.register.name) = none := by
    intro row
    simp [localOfDeclaration?, Register.toList_name]
  simp [declarations, List.filterMap_map, hlocal, hregister]

theorem filterMap_registerOfDeclaration? (settings : Settings) (code : LoweredFunction) :
    (code.declarations settings).filterMap registerOfDeclaration?
      = (code.declaredRegisters settings).map fun row => (row.register, row.ty) := by
  have hlocal : ∀ slot : LocalSlot,
      registerOfDeclaration? (slot.ty, Name.ofLocal slot.name) = none := by
    intro slot
    simp [registerOfDeclaration?, Name.toList_ofLocal]
  have hregister : ∀ row : RegisterRow,
      registerOfDeclaration? (row.ty, row.register.name) = some (row.register, row.ty) := by
    intro row
    simp [registerOfDeclaration?, Op.head?_register]
  simp [declarations, List.filterMap_map, hlocal, hregister]

/-! ## Signatures -/

theorem isWord_returnTypeText (ty : Option Scalar) : Line.IsWord (returnTypeText ty).toList := by
  cases ty with
  | none => exact Line.isWord_of_all (by decide) (by decide)
  | some ty => exact Line.isWord_scalar ty

theorem returnTypeText_inj {ty ty' : Option Scalar} (h : returnTypeText ty = returnTypeText ty') :
    ty = ty' := by
  have hvoid : ∀ ty : Scalar, ty.name ≠ "void" := by
    intro ty
    cases ty <;> decide
  cases ty with
  | none =>
    cases ty' with
    | none => rfl
    | some ty' => exact absurd h.symm (hvoid ty')
  | some ty =>
    cases ty' with
    | none => exact absurd h (hvoid ty)
    | some ty' => exact congrArg some (Scalar.name_inj h)

theorem toList_signatureText (code : LoweredFunction) :
    ∃ params, code.signatureText.toList = (returnTypeText code.returnType).toList
      ++ ' ' :: (code.symbol.toList ++ '(' :: params) := by
  refine ⟨(paramListText (code.params.map fun p => p.ty.name ++ " " ++ Name.ofLocal p.name)).toList
    ++ [')'], ?_⟩
  simp [signatureText]

/-- The signature tells the return type, the symbol and the parameters. -/
theorem Legible.eq_of_signatureText (hf : f.Legible) (hg : g.Legible)
    (h : f.signatureText = g.signatureText) :
    f.symbol = g.symbol ∧ f.params = g.params ∧ f.returnType = g.returnType := by
  have hreturn : ∀ code : LoweredFunction, code.signatureText.toList.takeWhile Line.isWordChar
      = (returnTypeText code.returnType).toList := by
    intro code
    obtain ⟨params, hline⟩ := toList_signatureText code
    rw [hline, (isWord_returnTypeText _).takeWhile (by decide)]
  have hsymbol : ∀ {code : LoweredFunction}, code.Legible →
      (code.signatureText.toList.dropWhile Line.isWordChar).tail.takeWhile Line.isWordChar
        = code.symbol.toList := by
    intro code hcode
    obtain ⟨params, hline⟩ := toList_signatureText code
    rw [hline, (isWord_returnTypeText _).dropWhile (by decide), List.tail_cons,
      hcode.symbol.takeWhile (by decide)]
  refine ⟨String.toList_injective ?_, ?_, returnTypeText_inj (String.toList_injective ?_)⟩
  · rw [← hsymbol hf, ← hsymbol hg, h]
  · have hparams := Prototype.params?_signatureText hf.params
    rw [h, Prototype.params?_signatureText hg.params, Option.some.injEq] at hparams
    refine (List.map_injective_iff.2 (fun p p' heq => ?_) hparams).symm
    obtain ⟨hty, hname⟩ := Prod.mk.inj heq
    obtain ⟨name, ty⟩ := p
    obtain ⟨name', ty'⟩ := p'
    obtain rfl : name = name' := Name.ofLocal_inj.1 hname
    obtain rfl : ty = ty' := hty
    rfl
  · rw [← hreturn f, ← hreturn g, h]

/-! ## Definitions -/

/-- What the text of a definition shows is the same. It shows string constants by number only,
and copies and casts alike. -/
structure SameCode (settings : Settings) (f g : LoweredFunction) : Prop where
  name : f.name = g.name
  symbol : f.symbol = g.symbol
  params : f.params = g.params
  returnType : f.returnType = g.returnType
  locals : (f.locals.filter (!·.isParam)).map (fun slot => (slot.name, slot.ty))
    = (g.locals.filter (!·.isParam)).map (fun slot => (slot.name, slot.ty))
  registers : (f.declaredRegisters settings).map (fun row => (row.register, row.ty))
    = (g.declaredRegisters settings).map (fun row => (row.register, row.ty))
  ops : Op.plainAll f.ops = Op.plainAll g.ops

theorem definition_eq_ok {lines : List String} (h : code.definition settings = .ok lines) :
    ∃ body, code.opsLines "    " code.ops = .ok body
      ∧ lines = ("// " ++ code.name) :: (code.signatureText ++ " \x7b")
        :: (code.preludeLines settings ++ body ++ ["\x7d"]) := by
  simp only [definition, bind_eq_ok, pure_eq_ok] at h
  obtain ⟨body, hbody, rfl⟩ := h
  refine ⟨body, hbody, ?_⟩
  simp [preludeLines, separator, headerLines_eq]

theorem newline_notMem_signatureText (h : code.Legible) :
    '\n' ∉ (code.signatureText ++ " \x7b").toList := by
  have hreturn := (isWord_returnTypeText code.returnType).notMem (c := '\n') (by decide)
  have hsymbol := h.symbol.notMem (c := '\n') (by decide)
  have hparams : '\n' ∉ (paramListText
      (code.params.map fun p => p.ty.name ++ " " ++ Name.ofLocal p.name)).toList :=
    fun hc => absurd (Prototype.mem_paramListText h.params hc) (by decide)
  simpa [signatureText, hreturn, hsymbol] using hparams

theorem Legible.newline_notMem (h : code.Legible) {lines : List String}
    (hlines : code.definition settings = .ok lines) : ∀ line ∈ lines, '\n' ∉ line.toList := by
  obtain ⟨body, hbody, rfl⟩ := definition_eq_ok hlines
  have hname : '\n' ∉ ("// " ++ code.name).toList := by simpa using h.name
  have hprelude : ∀ line ∈ code.preludeLines settings, '\n' ∉ line.toList := by
    refine h.forall_prelude (fun ty name hword => ?_) (fun name hword => ?_) (by decide)
    · have hty := (Line.isWord_scalar ty).notMem (c := '\n') (by decide)
      simpa [declaration, hty] using hword.notMem (by decide)
    · simpa [unused] using hword.notMem (by decide)
  have hinner := Op.newline_notMem_opsLines h.symbol (by decide) code.ops h.ops hbody
  refine List.forall_mem_cons.2 ⟨hname, List.forall_mem_cons.2 ⟨newline_notMem_signatureText h, ?_⟩⟩
  refine List.forall_mem_append.2 ⟨List.forall_mem_append.2 ⟨hprelude, hinner⟩, ?_⟩
  exact List.forall_mem_singleton.2 (by decide)

/-- The first operation ends the prelude. -/
theorem Legible.takeWhile_prelude (h : code.Legible) {body : List String}
    (hbody : code.opsLines "    " code.ops = .ok body) :
    (code.preludeLines settings ++ body).takeWhile (!startsOp ·) = code.preludeLines settings := by
  have hprelude : ∀ line ∈ code.preludeLines settings, (!startsOp line) = true := by
    refine h.forall_prelude (fun ty name hword => ?_) (fun name _ => ?_) rfl
    · rw [startsOp_declaration ty hword, Bool.not_false]
    · rw [startsOp_unused, Bool.not_false]
  have hfirst : body.takeWhile (!startsOp ·) = [] := by
    have hlegible := h.ops
    cases hops : code.ops with
    | nil =>
      rw [hops] at hbody
      cases hbody
      rfl
    | cons op ops =>
      rw [hops] at hbody hlegible
      obtain ⟨first, tail, hopLines, _, rfl⟩ := opsLines_cons hbody
      have hop := (Op.forall_nestedAll_cons hlegible).1 op op.mem_nested_self
      obtain ⟨text, rest, rfl, hwritten, _⟩ := Op.exists_first h.symbol hopLines hop
      have hstarts : startsOp ("    " ++ text) = true := by
        have hdrop : ("    " ++ text).toList.drop 4 = text.toList := by simp
        rw [startsOp, hdrop, hwritten.read]
        rfl
      simp [hstarts]
  rw [List.takeWhile_append_of_pos hprelude, hfirst, List.append_nil]

/-- A definition tells its function. -/
theorem Legible.sameCode (hf : f.Legible) (hg : g.Legible) {lines : List String}
    (hlines : f.definition settings = .ok lines) (hlines' : g.definition settings = .ok lines) :
    f.SameCode settings g := by
  obtain ⟨body, hbody, rfl⟩ := definition_eq_ok hlines
  obtain ⟨body', hbody', heq⟩ := definition_eq_ok hlines'
  rw [List.cons.injEq, List.cons.injEq, List.append_cancel_right_eq] at heq
  obtain ⟨hname, hsignature, hrest⟩ := heq
  have hprelude : f.preludeLines settings = g.preludeLines settings := by
    rw [← hf.takeWhile_prelude hbody, hrest, hg.takeWhile_prelude hbody']
  have hdeclared : f.declarations settings = g.declarations settings := by
    rw [← hf.filterMap_prelude, hprelude, hg.filterMap_prelude]
  rw [hprelude, List.append_cancel_left_eq] at hrest
  obtain ⟨hsymbol, hparams, hreturn⟩ :=
    hf.eq_of_signatureText hg (by simpa using hsignature)
  have hstops : Op.Stops ("" ++ "    ") ["" ++ "\x7d"] := Op.stops_of_outer (by decide) "" []
  rw [String.empty_append, String.empty_append] at hstops
  have hops := Op.plainAll_eq_of_opsLines hf.symbol hg.symbol f.ops g.ops hf.ops hg.ops hbody
    hbody' hstops hstops (by rw [hrest])
  refine ⟨by simpa using hname, hsymbol, hparams, hreturn, ?_, ?_, hops.1⟩
  · rw [← filterMap_localOfDeclaration? settings, hdeclared, filterMap_localOfDeclaration?]
  · rw [← filterMap_registerOfDeclaration?, hdeclared, filterMap_registerOfDeclaration?]

end LoweredFunction

/-! ## Lowered functions -/

theorem Registry.isWord_symbolOf {registry : Registry} {id : FunctionId} {symbol : Symbol}
    (hcanonical : registry.spelling = .canonical) (hdelimiter : registry.delimiter = '$')
    (h : registry.symbolOf id = .ok symbol) : Line.IsWord symbol.toList := by
  have hsame : registry.canonical = registry := by rw [canonical, ← hcanonical]
  refine ⟨List.ne_nil_of_mem (underscore_mem_symbol h), fun c hc => ?_⟩
  refine forall_mem_symbol (p := fun c => Line.isWordChar c = true) h ?_ ?_ ?_ hc
  · intro c hstem
    rw [← hsame] at hstem
    simp [Line.isWordChar, isPart_of_mem_stem hstem]
  · intro c hpart
    simp [Line.isWordChar, hpart]
  · simp [Line.isWordChar, hdelimiter]

theorem Shared.Lowers.name {shared : Shared} {function : SourceFunction}
    {lowering : FunctionLowering} (h : shared.Lowers function lowering) :
    lowering.function.name = function.name := by
  rcases h.derives with ⟨symbol, _, _, rfl⟩ | ⟨_, h⟩
  · rfl
  · cases h with
    | intro named params body returns => rfl

theorem LowersFunction.mem_routines {shared : Shared} {function : SourceFunction}
    {lowering : FunctionLowering} (h : LowersFunction shared function lowering) :
    ∀ routine ∈ Op.routines lowering.function.ops, routine ∈ Routine.all := by
  cases h with
  | intro named params body returns => exact body.mem_routines

namespace SourceUnit

variable {unit unit' : SourceUnit} {settings : Settings} {lowered lowered' : LoweredUnit}
  {code f g : LoweredFunction}

theorem isWord_symbol (h : unit.lower settings = .ok lowered)
    (hcanonical : settings.spelling = .canonical) (hdelimiter : settings.delimiter = '$')
    (hcode : code ∈ lowered.functions) : Line.IsWord code.symbol.toList := by
  obtain ⟨shared, f, lowering, hshared, hlowers, rfl⟩ := lower_lowers h hcode
  exact Registry.isWord_symbolOf (hshared.spelling.trans hcanonical)
    (hshared.delimiter.trans hdelimiter)
    (hshared.registered.symbolOf_of_resolve hlowers.symbol.1)

/-- In canonical spelling a call is written with the symbol of a function. -/
theorem isCallee (h : unit.lower settings = .ok lowered)
    (hcanonical : settings.spelling = .canonical) (hdelimiter : settings.delimiter = '$')
    (hcode : code ∈ lowered.functions) {dest : Option Register} {callee : Symbol}
    {args : List Register} (hop : .call dest callee args ∈ Op.nestedAll code.ops) :
    Op.IsCallee callee := by
  rcases lower_calls h hcode hop with hsymbol | halias
  · obtain ⟨target, htarget, rfl⟩ := List.mem_map.1 hsymbol
    refine ⟨isWord_symbol h hcanonical hdelimiter htarget, fun routine hroutine heq => ?_⟩
    obtain ⟨shared, f, lowering, hshared, hlowers, rfl⟩ := lower_lowers h htarget
    have hany : Routine.all.any (·.name == routine.name) = true :=
      List.any_eq_true.2 ⟨routine, hroutine, beq_self_eq_true _⟩
    have hreserved : Name.isReserved routine.name = true := by simp [Name.isReserved, hany]
    rw [heq, hshared.unreserved hlowers] at hreserved
    cases hreserved
  · simp [NameTable.find?, aliases_canonical h hcanonical] at halias

/-- The text of a lowered function can be read. -/
theorem legible (h : unit.lower settings = .ok lowered)
    (hcanonical : settings.spelling = .canonical) (hdelimiter : settings.delimiter = '$')
    (hcode : code ∈ lowered.functions) (hinternal : code.isExternal = false) : code.Legible := by
  have hsymbol := isWord_symbol h hcanonical hdelimiter hcode
  have hcalls : ∀ dest callee args, .call dest callee args ∈ Op.nestedAll code.ops →
      Op.IsCallee callee := fun _ _ _ => isCallee h hcanonical hdelimiter hcode
  obtain ⟨shared, function, lowering, hshared, hlowers, rfl⟩ := lower_lowers h hcode
  obtain ⟨_, _, hexternal, hcode'⟩ | ⟨_, hderives⟩ := hlowers.derives
  · rw [hcode'] at hinternal
    cases hinternal
  have hslots := hderives.isIdentifier_slot
  have hmentioned : ∀ name ∈ Op.loads lowering.function.ops ++ Op.stores lowering.function.ops,
      Name.isIdentifier name = true := by
    intro name hname
    obtain ⟨slot, hslot, rfl⟩ := List.mem_map.1 (hderives.tablesExact.declared name hname)
    exact hslots slot hslot
  constructor
  · have hnamed := hshared.registered.symbolOf_of_resolve hlowers.symbol.1
    have hidentifier : Name.isIdentifier function.name = true :=
      (Registry.symbolOf_eq_ok.1 hnamed).2.1
    rw [hlowers.name]
    exact fun hc => absurd (Name.isPart_of_isIdentifier hidentifier hc) (by decide)
  · exact hsymbol
  · intro param hparam
    have hname : param.name ∈ lowering.function.params.map (·.name) := List.mem_map_of_mem hparam
    rw [← hderives.slots.2] at hname
    obtain ⟨slot, hslot, hname⟩ := List.mem_map.1 hname
    exact hname ▸ hslots slot (List.mem_filter.1 hslot).1
  · exact hslots
  · intro op hop
    cases op with
    | loadLocal dest name =>
      exact hmentioned name (List.mem_append_left _ (List.mem_filterMap.2 ⟨_, hop, rfl⟩))
    | storeLocal name src =>
      exact hmentioned name (List.mem_append_right _ (List.mem_filterMap.2 ⟨_, hop, rfl⟩))
    | call dest callee args => exact hcalls dest callee args hop
    | print routine arg =>
      exact hderives.mem_routines routine (List.mem_filterMap.2 ⟨_, hop, rfl⟩)
    | _ => trivial

/-- Every function that is not external has a text. -/
theorem exists_definition (h : unit.lower settings = .ok lowered)
    (hcode : code ∈ lowered.functions) (hinternal : code.isExternal = false)
    (settings' : Settings) : ∃ lines, code.definition settings' = .ok lines := by
  obtain ⟨shared, function, lowering, hderives, rfl⟩ := lower_derives h hcode hinternal
  obtain ⟨body, _, hdefinition⟩ := LoweredFunction.definition_eq settings' hderives.typed
  exact ⟨_, hdefinition⟩

/-- Equal texts come from equal functions. In canonical spelling, with the dollar sign as
delimiter, two functions that are written alike have the same name, symbol, parameters, return
type, locals and registers, and the same operations at every depth, up to the distinction
between copies and casts. -/
theorem sameCode_of_text (h : unit.lower settings = .ok lowered)
    (h' : unit'.lower settings = .ok lowered') (hcanonical : settings.spelling = .canonical)
    (hdelimiter : settings.delimiter = '$') (hf : f ∈ lowered.functions)
    (hg : g ∈ lowered'.functions) (hinternal : f.isExternal = false)
    (hinternal' : g.isExternal = false)
    (htext : unlines <$> f.definition settings = unlines <$> g.definition settings) :
    (∃ text, unlines <$> f.definition settings = .ok text) ∧ f.SameCode settings g := by
  have hlegible := legible h hcanonical hdelimiter hf hinternal
  have hlegible' := legible h' hcanonical hdelimiter hg hinternal'
  obtain ⟨lines, hlines⟩ := exists_definition h hf hinternal settings
  obtain ⟨lines', hlines'⟩ := exists_definition h' hg hinternal' settings
  rw [hlines, hlines'] at htext
  have hsame : lines = lines' := unlines_inj (hlegible.newline_notMem hlines)
    (hlegible'.newline_notMem hlines') (Except.ok.inj htext)
  refine ⟨⟨unlines lines, by rw [hlines]; rfl⟩, ?_⟩
  exact hlegible.sameCode hlegible' hlines (hsame ▸ hlines')

end SourceUnit

/-- Counts down and prints a text at one. -/
def Sample.countdown (text : String) : SourceUnit where
  name := "countdown"
  functions :=
    [{ path := ""
       moduleName := "m"
       name := "f"
       params := [⟨"n", .u8⟩]
       body :=
        [.loop (.var "n")
          [.branch (.binary .eq (.var "n") (.literal ⟨1, .u8⟩)) [.print (.text text)] [],
            .assign "n" (.binary .sub (.var "n") (.literal ⟨1, .u8⟩))]] }]

/-- The definition does not show the text that is printed. -/
def Sample.countdownLines : List String :=
  ["// f", "void m_f$u8(u8 v_n) \x7b", "    u8 r2 = 0;", "    u8 r3 = 0;", "    u8 r4 = 0;",
    "    u8 r5 = 0;", "    u8 r6 = 0;", "    u8 r7 = 0;", "    u8 r8 = 0;", "",
    "    while (1) \x7b", "        r2 = v_n;", "        if (!r2) break;", "        r3 = v_n;",
    "        r4 = 1;", "        r5 = (u8)((uint32_t)r3 == (uint32_t)r4);", "        if (r5) \x7b",
    "            print_string(&m_f$u8_str0);", "        \x7d", "        r6 = v_n;",
    "        r7 = 1;", "        r8 = (u8)((uint32_t)r6 - (uint32_t)r7);", "        v_n = r8;",
    "    \x7d", "\x7d"]

namespace SourceUnit

theorem exists_countdown (text : String)
    (h : ((Sample.countdown text).lower {}).toOption.map (fun lowered => lowered.functions.map
        fun code => (code.isExternal, code.strings, (code.definition {}).toOption))
      = some [(false, [text], some Sample.countdownLines)]) :
    ∃ lowered f, (Sample.countdown text).lower {} = .ok lowered ∧ f ∈ lowered.functions
      ∧ f.isExternal = false ∧ f.strings = [text]
      ∧ f.definition {} = .ok Sample.countdownLines := by
  cases hlower : (Sample.countdown text).lower {} with
  | error cause => simp [hlower, Except.toOption] at h
  | ok lowered =>
    have hviews : lowered.functions.map (fun code =>
        (code.isExternal, code.strings, (code.definition {}).toOption))
        = [(false, [text], some Sample.countdownLines)] := by
      rw [hlower] at h
      exact Option.some.inj h
    obtain ⟨f, hf, hview⟩ := List.mem_map.1 (hviews ▸ List.mem_singleton_self _)
    simp only [Prod.mk.injEq] at hview
    obtain ⟨hinternal, hstrings, hdefinition⟩ := hview
    refine ⟨lowered, f, rfl, hf, hinternal, hstrings, ?_⟩
    cases hlines : f.definition {} with
    | error cause => simp [hlines, Except.toOption] at hdefinition
    | ok lines => simpa [hlines, Except.toOption] using hdefinition

/-- Two units that print different texts through the same function. -/
theorem sameCode_of_text_countdown :
    ∃ lowered lowered' f g, (Sample.countdown "on").lower {} = .ok lowered
      ∧ (Sample.countdown "off").lower {} = .ok lowered' ∧ f ∈ lowered.functions
      ∧ g ∈ lowered'.functions ∧ f.isExternal = false ∧ g.isExternal = false
      ∧ f.strings ≠ g.strings
      ∧ unlines <$> f.definition {} = unlines <$> g.definition {}
      ∧ (∃ text, unlines <$> f.definition {} = .ok text) ∧ f.SameCode {} g := by
  obtain ⟨lowered, f, h, hf, hinternal, hstrings, hlines⟩ :=
    exists_countdown "on" (by decide +kernel)
  obtain ⟨lowered', g, h', hg, hinternal', hstrings', hlines'⟩ :=
    exists_countdown "off" (by decide +kernel)
  have htext : unlines <$> f.definition {} = unlines <$> g.definition {} := by
    rw [hlines, hlines']
  refine ⟨lowered, lowered', f, g, h, h', hf, hg, hinternal, hinternal', ?_, htext, ?_⟩
  · rw [hstrings, hstrings']
    decide
  · exact sameCode_of_text h h' rfl rfl hf hg hinternal hinternal' htext

end SourceUnit

end ScalarC
