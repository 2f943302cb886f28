import Mathlib.Data.List.DropRight
import ScalarC.Proofs.CText.ReadBack
import ScalarC.Proofs.Lowering.Order
import ScalarC.Proofs.Name.BlockScope

/-!
# Parameters of prototypes

A prototype is read back as the types and names of its parameters, which are those of the
source. All names can be C variables. They are distinct if the function is defined in the
unit, since its parameters go into one table of locals. An external function has no such
table, and a name that the source repeats is repeated in the prototype.
-/

namespace ScalarC

/-! ## Reading prototypes -/

namespace Prototype

/-- What stands in the last pair of parentheses. -/
def paramList (line : List Char) : List Char :=
  (line.rtakeWhile (· != '(')).takeWhile (· != ')')

/-- The words between blanks. -/
def words (text : List Char) : List (List Char) :=
  (text.splitOn ' ').filter (· ≠ [])

/-- A parameter is a type and a name. -/
def param? (text : List Char) : Option (Scalar × String) :=
  match words text with
  | [ty, name] => (Scalar.ofName? (String.ofList ty)).map (·, String.ofList name)
  | _ => none

/-- The types and names of the parameters in a prototype. -/
def params? (line : String) : Option (List (Scalar × String)) :=
  let list := paramList line.toList
  if list = "void".toList then some [] else (list.splitOn ',').mapM param?

theorem bne_of_notMem {d : Char} {text : List Char} (h : d ∉ text) :
    ∀ c ∈ text, (c != d) = true := by
  intro c hc
  rw [bne_iff_ne]
  exact ne_of_mem_of_not_mem hc h

theorem paramList_eq {list rest : List Char} (first : List Char) (hopening : '(' ∉ list ++ rest)
    (hclosing : ')' ∉ list) : paramList (first ++ '(' :: list ++ ')' :: rest) = list := by
  have hbehind : '(' ∉ (list ++ ')' :: rest).reverse := by
    simpa [and_comm] using hopening
  have htail : (first ++ '(' :: list ++ ')' :: rest).rtakeWhile (· != '(')
      = list ++ ')' :: rest := by
    rw [List.append_assoc, List.cons_append, List.rtakeWhile, List.reverse_append,
      List.reverse_cons, List.append_assoc, List.takeWhile_append_of_pos (bne_of_notMem hbehind)]
    simp
  rw [paramList, htail, List.takeWhile_append_of_pos (bne_of_notMem hclosing)]
  simp

/-- A blank in front of a word does not count. -/
theorem words_blank (text : List Char) : words (' ' :: text) = words text := by
  simp [words, List.splitOn, List.splitOnP_cons_eq_if_modifyHead]

theorem words_pair {ty name : List Char} (hty : ' ' ∉ ty) (hname : ' ' ∉ name) (hty' : ty ≠ [])
    (hname' : name ≠ []) : words (ty ++ ' ' :: name) = [ty, name] := by
  have hsplit : ([' '].intercalate [ty, name]).splitOn ' ' = [ty, name] :=
    List.splitOn_intercalate ' ' (by simp [hty, hname]) (by simp)
  rw [List.intercalate_cons_cons, List.intercalate_singleton, List.append_assoc,
    List.singleton_append] at hsplit
  simp [words, hsplit, hty', hname']

/-- The blanks behind commas belong to what follows. -/
theorem intercalate_comma_blank (first : List Char) (rest : List (List Char)) :
    [',', ' '].intercalate (first :: rest) = [','].intercalate (first :: rest.map (' ' :: ·)) := by
  induction rest generalizing first with
  | nil => simp
  | cons second rest ih =>
    have hblank : ∀ rest : List (List Char),
        [','].intercalate ((' ' :: second) :: rest) = ' ' :: [','].intercalate (second :: rest) := by
      intro rest
      cases rest <;> simp [List.intercalate_cons_cons]
    rw [List.intercalate_cons_cons, ih, List.map_cons, List.intercalate_cons_cons, hblank]
    simp

theorem ne_of_isPart {c d : Char} (hc : Name.isPart c = true) (hd : Name.isPart d = false) :
    d ≠ c := by
  rintro rfl
  rw [hc] at hd
  cases hd

/-- A parameter as the prototype writes it. -/
def paramText (param : Parameter) : String :=
  param.ty.name ++ " " ++ Name.ofLocal param.name

variable {param : Parameter} {params : List Parameter}

theorem mem_paramText (h : Name.isIdentifier param.name = true) {c : Char}
    (hc : c ∈ (paramText param).toList) : c = ' ' ∨ Name.isPart c = true := by
  simp only [paramText, String.toList_append, List.mem_append] at hc
  rcases hc with (hc | hc) | hc
  · exact .inr (param.ty.isPart_name hc)
  · exact .inl (List.mem_singleton.1 hc)
  · exact .inr (Name.isPart_ofLocal h hc)

theorem words_paramText (h : Name.isIdentifier param.name = true) :
    words (paramText param).toList = [param.ty.name.toList, (Name.ofLocal param.name).toList] := by
  have hne : param.ty.name.toList ≠ [] := by cases param.ty <;> decide
  simp only [paramText, String.toList_append, List.append_assoc]
  refine words_pair ?_ ?_ hne (by simp [Name.toList_ofLocal])
  · exact fun hc => ne_of_isPart (param.ty.isPart_name hc) (by decide) rfl
  · exact fun hc => ne_of_isPart (Name.isPart_ofLocal h hc) (by decide) rfl

theorem param?_paramText (h : Name.isIdentifier param.name = true) :
    param? (paramText param).toList = some (param.ty, Name.ofLocal param.name) := by
  simp only [param?, words_paramText h, String.ofList_toList, Scalar.ofName?_name, Option.map_some]

theorem param?_blank (text : List Char) : param? (' ' :: text) = param? text := by
  rw [param?, words_blank, ← param?]

/-! ## Parameter lists -/

theorem toList_paramListText (param : Parameter) (params : List Parameter) :
    (paramListText ((param :: params).map paramText)).toList
      = [','].intercalate ((paramText param).toList
        :: params.map fun p => ' ' :: (paramText p).toList) := by
  rw [paramListText, List.map_cons, List.isEmpty_cons, if_neg (by decide),
    String.toList_intercalate, List.map_cons]
  exact (intercalate_comma_blank _ _).trans (by simp only [List.map_map]; rfl)

theorem blank_mem_paramListText (param : Parameter) (params : List Parameter) :
    ' ' ∈ (paramListText ((param :: params).map paramText)).toList := by
  have hblank : ' ' ∈ (paramText param).toList := by simp [paramText]
  rw [toList_paramListText]
  cases params <;> simp [List.intercalate_cons_cons, hblank]

theorem mem_intercalate_comma {c : Char} {pieces : List (List Char)}
    (h : c ∈ [','].intercalate pieces) : c = ',' ∨ ∃ piece ∈ pieces, c ∈ piece := by
  induction pieces with
  | nil => simp at h
  | cons first rest ih =>
    cases rest with
    | nil => exact .inr ⟨first, List.mem_cons_self, by simpa using h⟩
    | cons second rest =>
      rw [List.intercalate_cons_cons, List.mem_append, List.mem_append, List.mem_singleton] at h
      rcases h with (h | h) | h
      · exact .inr ⟨first, List.mem_cons_self, h⟩
      · exact .inl h
      · refine (ih h).imp_right ?_
        rintro ⟨piece, hpiece, hc⟩
        exact ⟨piece, List.mem_cons_of_mem _ hpiece, hc⟩

/-- The pieces between the commas hold words and blanks only. -/
theorem mem_piece (h : ∀ p ∈ param :: params, Name.isIdentifier p.name = true)
    {piece : List Char} (hpiece : piece ∈ (paramText param).toList
      :: params.map fun p => ' ' :: (paramText p).toList) {c : Char} (hc : c ∈ piece) :
    c = ' ' ∨ Name.isPart c = true := by
  rcases List.mem_cons.1 hpiece with rfl | hpiece
  · exact mem_paramText (h param List.mem_cons_self) hc
  · obtain ⟨p, hp, rfl⟩ := List.mem_map.1 hpiece
    rcases List.mem_cons.1 hc with rfl | hc
    · exact .inl rfl
    · exact mem_paramText (h p (List.mem_cons_of_mem _ hp)) hc

/-- The characters of a parameter list. -/
theorem mem_paramListText (h : ∀ p ∈ params, Name.isIdentifier p.name = true) {c : Char}
    (hc : c ∈ (paramListText (params.map paramText)).toList) :
    c = ',' ∨ c = ' ' ∨ Name.isPart c = true := by
  cases params with
  | nil => exact .inr (.inr (List.all_eq_true.1 (by decide : "void".toList.all Name.isPart) c hc))
  | cons first rest =>
    rw [toList_paramListText] at hc
    refine (mem_intercalate_comma hc).imp_right ?_
    rintro ⟨piece, hpiece, hc⟩
    exact mem_piece h hpiece hc

theorem mapM_param? (h : ∀ p ∈ params, Name.isIdentifier p.name = true) :
    (params.map fun p => ' ' :: (paramText p).toList).mapM param?
      = some (params.map fun p => (p.ty, Name.ofLocal p.name)) := by
  induction params with
  | nil => rfl
  | cons first rest ih =>
    obtain ⟨hfirst, hrest⟩ := List.forall_mem_cons.1 h
    rw [List.map_cons, List.mapM_cons, param?_blank, param?_paramText hfirst, ih hrest]
    rfl

/-- The prototype of a function is read back as its parameters. -/
theorem params?_signatureText {code : LoweredFunction}
    (h : ∀ p ∈ code.params, Name.isIdentifier p.name = true) :
    params? (code.signatureText ++ ";")
      = some (code.params.map fun p => (p.ty, Name.ofLocal p.name)) := by
  have hline : (code.signatureText ++ ";").toList
      = (returnTypeText code.returnType ++ " " ++ code.symbol).toList
        ++ '(' :: (paramListText (code.params.map paramText)).toList ++ ')' :: [';'] := by
    simp [LoweredFunction.signatureText]
    rfl
  have hlist : paramList (code.signatureText ++ ";").toList
      = (paramListText (code.params.map paramText)).toList := by
    rw [hline]
    refine paramList_eq _ ?_ ?_
    · intro hc
      rcases List.mem_append.1 hc with hc | hc
      · exact absurd (mem_paramListText h hc) (by decide)
      · exact absurd hc (by decide)
    · exact fun hc => absurd (mem_paramListText h hc) (by decide)
  rw [params?, hlist]
  cases hparams : code.params with
  | nil => rfl
  | cons first rest =>
    rw [hparams] at h
    have hvoid : (paramListText ((first :: rest).map paramText)).toList ≠ "void".toList := by
      intro heq
      have hblank := blank_mem_paramListText first rest
      rw [heq] at hblank
      exact absurd hblank (by decide)
    have hcomma : ∀ piece ∈ (paramText first).toList
        :: rest.map fun p => ' ' :: (paramText p).toList, ',' ∉ piece :=
      fun piece hpiece hc => absurd (mem_piece h hpiece hc) (by decide)
    obtain ⟨hfirst, hrest⟩ := List.forall_mem_cons.1 h
    rw [if_neg hvoid, toList_paramListText, List.splitOn_intercalate ',' hcomma (by simp),
      List.mapM_cons, param?_paramText hfirst, mapM_param? hrest]
    rfl

end Prototype

/-! ## Names of parameters -/

/-- Neither types nor keywords start like the name of a local. -/
theorem CExpr.isVariable_ofLocal {name : String} (h : Name.isIdentifier name = true) :
    IsVariable (Name.ofLocal name) where
  isIdentifier := by
    unfold Name.isIdentifier
    rw [Name.toList_ofLocal]
    simpa using ⟨by decide, by decide, fun c hc => Name.isPart_of_isIdentifier h hc⟩
  notType := by
    have htypes : ∀ ty ∈ CType.all, ty.text.toList.take 2 ≠ ['v', '_'] := by decide
    refine List.find?_eq_none.2 fun ty hty heq => htypes ty hty ?_
    rw [eq_of_beq heq, Name.toList_ofLocal]
    rfl
  notKeyword := by
    have hkeywords : ∀ word ∈ keywords, word.toList.take 2 ≠ ['v', '_'] := by decide
    intro hmem
    refine hkeywords _ hmem ?_
    rw [Name.toList_ofLocal]
    rfl

namespace Shared

variable {shared : Shared} {function : SourceFunction} {lowering : FunctionLowering}

theorem Lowers.params (h : shared.Lowers function lowering) :
    lowering.function.params = function.params := by
  rcases h.derives with ⟨symbol, _, _, rfl⟩ | ⟨_, h⟩
  · rfl
  · cases h with
    | intro named params body returns => rfl

/-- The parameters of a defined function are distinct, as they share the table of locals. -/
theorem Lowers.nodup_params (h : shared.Lowers function lowering)
    (hinternal : function.isExternal = false) : (function.params.map (·.name)).Nodup := by
  rcases h.derives with ⟨_, _, hexternal, _⟩ | ⟨_, hderives⟩
  · rw [hinternal] at hexternal
    cases hexternal
  · obtain ⟨hdistinct, hparams⟩ := hderives.slots
    rw [← h.params, ← hparams]
    exact hdistinct.sublist (List.filter_sublist.map _)

theorem Lowers.nodup_names (h : shared.Lowers function lowering) :
    (function.params.map (Name.ofLocal ·.name)).Nodup ↔
      function.isExternal = true → (function.params.map (·.name)).Nodup := by
  have hnames : (function.params.map (Name.ofLocal ·.name)).Nodup ↔
      (function.params.map (·.name)).Nodup := by
    have hinj : Function.Injective Name.ofLocal := fun _ _ => Name.ofLocal_inj.1
    have hmap := List.nodup_map_iff hinj (l := function.params.map (·.name))
    rwa [List.map_map] at hmap
  cases hexternal : function.isExternal with
  | false => simpa [hnames] using h.nodup_params hexternal
  | true => simp [hnames]

end Shared

/-- The prototypes are lines of the file. -/
theorem LoweredUnit.mem_fileLines_of_mem_functions {unit : LoweredUnit} {settings : Settings}
    {lines : List String} (h : unit.fileLines settings = .ok lines) {code : LoweredFunction}
    (hcode : code ∈ unit.functions) : code.signatureText ++ ";" ∈ lines := by
  have hsection : code.signatureText ++ ";" ∈ unit.prototypeSection := by
    have hline : code.signatureText ++ ";" ∈ unit.functions.map (·.signatureText ++ ";") :=
      List.mem_map_of_mem hcode
    simp [prototypeSection, List.ne_nil_of_mem hcode, hline]
  simp only [fileLines, bind_eq_ok, pure_eq_ok] at h
  obtain ⟨_, _, rfl⟩ := h
  simp [hsection]

namespace SourceUnit

variable {unit : SourceUnit} {settings : Settings} {lowered : LoweredUnit}

theorem isIdentifier_param (h : unit.lower settings = .ok lowered) {f : SourceFunction}
    (hf : f ∈ unit.functions) {p : Parameter} (hp : p ∈ f.params) :
    Name.isIdentifier p.name = true := by
  obtain ⟨shared, lowerings, hshared, _⟩ := lower_eq_ok.1 h
  obtain ⟨_, _, haccepts, _⟩ := Shared.ofUnit_isOk.1 ⟨shared, hshared⟩
  exact haccepts.params f hf p hp

theorem exists_blocks (h : unit.lower settings = .ok lowered) :
    ∃ blocks, unit.HasBlocks settings blocks lowered := by
  obtain ⟨shared, lowerings, hshared, hunit⟩ := lower_eq_ok.1 h
  obtain ⟨blocks, hsource, rfl⟩ := hunit.exists_blocks
  exact ⟨blocks, hunit.hasBlocks hshared hsource⟩

/-- Prototypes write the parameters of the source, under names that can be C variables. The
names of one prototype are distinct exactly if the function is defined in the unit or has
distinct parameters in the source. -/
theorem prototype_names (h : unit.lower settings = .ok lowered) :
    ∃ lines, lowered.emit settings = .ok (unlines lines)
      ∧ List.Forall₂ (fun f code =>
          code.signatureText ++ ";" ∈ lines
          ∧ ∃ params, Prototype.params? (code.signatureText ++ ";") = some params
            ∧ params = f.params.map (fun p => (p.ty, Name.ofLocal p.name))
            ∧ (∀ param ∈ params, CExpr.IsVariable param.2)
            ∧ ((params.map (·.2)).Nodup ↔
              f.isExternal = true → (f.params.map (·.name)).Nodup))
        unit.functions lowered.functions := by
  obtain ⟨text, htext⟩ := exists_emit_of_lower h settings
  simp only [LoweredUnit.emit, bind_eq_ok, pure_eq_ok] at htext ⊢
  obtain ⟨lines, hlines, rfl⟩ := htext
  refine ⟨lines, ⟨lines, hlines, rfl⟩, ?_⟩
  obtain ⟨blocks, hsource, ⟨shared, _, hlowers⟩, hfunctions, _⟩ := exists_blocks h
  rw [hsource, hfunctions, List.forall₂_map_left_iff, List.forall₂_map_right_iff,
    List.forall₂_same]
  intro block hblock
  have hf : block.1 ∈ unit.functions := hsource ▸ List.mem_map_of_mem hblock
  have hcode : block.2.function ∈ lowered.functions := hfunctions ▸ List.mem_map_of_mem hblock
  have hparams := (hlowers block hblock).params
  have hread : Prototype.params? (block.2.function.signatureText ++ ";")
      = some (block.1.params.map fun p => (p.ty, Name.ofLocal p.name)) := by
    rw [← hparams]
    exact Prototype.params?_signatureText fun p hp => isIdentifier_param h hf (hparams ▸ hp)
  refine ⟨LoweredUnit.mem_fileLines_of_mem_functions hlines hcode, _, hread, rfl, ?_, ?_⟩
  · intro param hparam
    obtain ⟨p, hp, rfl⟩ := List.mem_map.1 hparam
    exact CExpr.isVariable_ofLocal (isIdentifier_param h hf hp)
  · rw [List.map_map]
    exact (hlowers block hblock).nodup_names

end SourceUnit

/-- A function that is defined, and an external one with two parameters of one name. -/
def Sample.twins : SourceUnit where
  name := "twins"
  functions :=
    [{ path := ""
       moduleName := "m"
       name := "f"
       params := [⟨"a", .u8⟩, ⟨"b", .f8_8⟩]
       body := [.print (.value (.var "a"))] },
      { path := ""
        moduleName := "m"
        name := "g"
        params := [⟨"a", .u8⟩, ⟨"a", .u8⟩]
        isExternal := true }]

namespace SourceUnit

theorem lower_twins :
    ∃ lowered, Sample.twins.lower {} = .ok lowered
      ∧ lowered.functions.map (·.signatureText ++ ";")
        = ["void m_f$u8$f8_8(u8 v_a, f8_8 v_b);", "void m_g$u8$u8(u8 v_a, u8 v_a);"] := by
  have hlower : (Sample.twins.lower {}).toOption.map (·.functions.map (·.signatureText ++ ";"))
      = some ["void m_f$u8$f8_8(u8 v_a, f8_8 v_b);", "void m_g$u8$u8(u8 v_a, u8 v_a);"] := by
    decide +kernel
  cases h : Sample.twins.lower {} with
  | error cause => simp [h, Except.toOption] at hlower
  | ok lowered => exact ⟨lowered, rfl, by simpa [h, Except.toOption] using hlower⟩

theorem prototype_names_twins :
    ∃ lowered lines, Sample.twins.lower {} = .ok lowered
      ∧ lowered.emit {} = .ok (unlines lines)
      ∧ "void m_f$u8$f8_8(u8 v_a, f8_8 v_b);" ∈ lines
      ∧ Prototype.params? "void m_f$u8$f8_8(u8 v_a, f8_8 v_b);"
        = some [(.u8, "v_a"), (.f8_8, "v_b")]
      ∧ ["v_a", "v_b"].Nodup
      ∧ "void m_g$u8$u8(u8 v_a, u8 v_a);" ∈ lines
      ∧ Prototype.params? "void m_g$u8$u8(u8 v_a, u8 v_a);" = some [(.u8, "v_a"), (.u8, "v_a")]
      ∧ CExpr.IsVariable "v_a" := by
  obtain ⟨lowered, h, htexts⟩ := lower_twins
  obtain ⟨lines, hemit, hfunctions⟩ := prototype_names h
  refine ⟨lowered, lines, h, hemit, ?_⟩
  rcases hcodes : lowered.functions with _ | ⟨first, _ | ⟨second, rest⟩⟩
  · simp [hcodes] at htexts
  · simp [hcodes] at htexts
  · simp only [hcodes, List.map_cons, List.cons.injEq, List.map_eq_nil_iff] at htexts hfunctions
    obtain ⟨hfirst, hsecond, rfl⟩ := htexts
    obtain _ | ⟨⟨hf, _, hreadf, rfl, _, hdistinct⟩, hfunctions⟩ := hfunctions
    obtain _ | ⟨⟨hg, _, hreadg, rfl, hvariable, _⟩, _⟩ := hfunctions
    rw [hfirst] at hf hreadf
    rw [hsecond] at hg hreadg
    exact ⟨hf, hreadf, hdistinct.2 (by decide), hg, hreadg, hvariable (.u8, "v_a") List.mem_cons_self⟩

/-- The external function of the sample is accepted, and its prototype declares one name twice. -/
theorem prototype_repeats_name :
    ∃ lowered code params, Sample.twins.lower {} = .ok lowered ∧ code ∈ lowered.functions
      ∧ code.signatureText ++ ";" = "void m_g$u8$u8(u8 v_a, u8 v_a);"
      ∧ Prototype.params? (code.signatureText ++ ";") = some params
      ∧ params.map (·.2) = ["v_a", "v_a"] ∧ ¬(params.map (·.2)).Nodup := by
  obtain ⟨lowered, h, htexts⟩ := lower_twins
  have hmem : "void m_g$u8$u8(u8 v_a, u8 v_a);" ∈ lowered.functions.map (·.signatureText ++ ";") := by
    simp [htexts]
  obtain ⟨code, hcode, htext⟩ := List.mem_map.1 hmem
  have hread : Prototype.params? "void m_g$u8$u8(u8 v_a, u8 v_a);"
      = some [(.u8, "v_a"), (.u8, "v_a")] := by
    decide +kernel
  exact ⟨lowered, code, _, h, hcode, htext, htext ▸ hread, rfl, by decide⟩

end SourceUnit

end ScalarC
