import ScalarC.Proofs.Lowering.Order
import ScalarC.Proofs.Name.BlockScope

/-!
# Aliases are spellings at calls

An alias is recorded where a call is lowered, and the call is written with its spelling. So
the aliases of a lowered unit are the symbols that its code calls, without those of its
functions. And the alias was found by its legacy key, among symbols that were registered.
-/

namespace ScalarC

namespace Op

/-- The symbol that an operation calls. -/
def callee? : Op → Option Symbol
  | .call _ callee _ => some callee
  | _ => none

/-- The symbols that operations call, in the order of the code. -/
def callees (ops : List Op) : List Symbol := (nestedAll ops).filterMap callee?

@[simp] theorem callees_nil : callees [] = [] := rfl

@[simp] theorem callees_append (ops rest : List Op) :
    callees (ops ++ rest) = callees ops ++ callees rest := by
  simp [callees]

@[simp] theorem callees_call (dest : Option Register) (callee : Symbol) (args : List Register)
    (rest : List Op) : callees (.call dest callee args :: rest) = callee :: callees rest := rfl

@[simp] theorem callees_branch (cond : Register) (thenOps elseOps rest : List Op) :
    callees (.branch cond thenOps elseOps :: rest)
      = callees thenOps ++ callees elseOps ++ callees rest := by
  simp [callees, nestedAll, nested, List.filterMap_cons, callee?]

@[simp] theorem callees_loop (condOps : List Op) (cond : Register) (body rest : List Op) :
    callees (.loop condOps cond body :: rest)
      = callees condOps ++ callees body ++ callees rest := by
  simp [callees, nestedAll, nested, List.filterMap_cons, callee?]

theorem mem_callees {ops : List Op} {callee : Symbol} :
    callee ∈ callees ops ↔ ∃ dest args, .call dest callee args ∈ nestedAll ops := by
  simp only [callees, List.mem_filterMap]
  constructor
  · rintro ⟨op, hop, hcallee⟩
    cases op <;> simp only [callee?, Option.some.injEq, reduceCtorEq] at hcallee
    subst hcallee
    exact ⟨_, _, hop⟩
  · rintro ⟨dest, args, hop⟩
    exact ⟨_, hop, rfl⟩

end Op

/-! ## Steps -/

namespace Session

/-- The aliases after a step were there before, or are among the spellings. -/
def Aliases (s : Session) (spellings : List Symbol) (s' : Session) : Prop :=
  ∀ name, (s'.aliases.find? name).isSome → (s.aliases.find? name).isSome ∨ name ∈ spellings

variable {s s₁ s' : Session} {spellings more : List Symbol}

namespace Aliases

theorem refl (s : Session) : s.Aliases [] s := fun _ => .inl

theorem trans (h : s.Aliases spellings s₁) (h' : s₁.Aliases more s') :
    s.Aliases (spellings ++ more) s' := by
  intro name hname
  rcases h' name hname with hname | hmore
  · exact (h name hname).imp_right (List.mem_append_left _)
  · exact .inr (List.mem_append_right _ hmore)

/-- A step before that records no alias. -/
theorem after (heq : s₁.aliases = s.aliases) (h : s₁.Aliases spellings s') :
    s.Aliases spellings s' := by
  unfold Aliases at h ⊢
  rwa [← heq]

/-- A step behind that records no alias. -/
theorem before (h : s.Aliases spellings s₁) (heq : s'.aliases = s₁.aliases) :
    s.Aliases spellings s' := by
  unfold Aliases at h ⊢
  rwa [heq]

theorem mono (h : s.Aliases spellings s') (hsubset : spellings ⊆ more) : s.Aliases more s' :=
  fun name hname => (h name hname).imp_right (hsubset ·)

end Aliases

end Session

section Steps

variable {scope : Scope} {s s' : Session}

theorem Lower.markRead_aliases {r : Register} {u : Unit} (h : Lower.markRead r s = .ok (u, s')) :
    s'.aliases = s.aliases := by
  obtain ⟨_, _, rfl⟩ := Lower.markRead_ok.1 h
  rfl

theorem Lower.readLocal_aliases {name : String} {ty : Scalar}
    (h : Lower.readLocal name s = .ok (ty, s')) : s'.aliases = s.aliases := by
  obtain ⟨_, _, rfl⟩ := Lower.readLocal_ok.1 h
  rfl

theorem Lower.assignLocal_aliases {name : String} {u : Unit}
    (h : Lower.assignLocal name s = .ok (u, s')) : s'.aliases = s.aliases := by
  obtain ⟨_, _, _, rfl⟩ := Lower.assignLocal_ok.1 h
  rfl

theorem Lower.declareLocal_aliases {name : String} {ty : Scalar} {u : Unit}
    (h : Lower.declareLocal name ty s = .ok (u, s')) : s'.aliases = s.aliases := by
  obtain ⟨_, _, rfl⟩ := Lower.declareLocal_ok.1 h
  rfl

theorem Scope.literalValue_aliases {value n : Int} {ty : Scalar}
    (h : scope.literalValue value ty s = .ok (n, s')) : s'.aliases = s.aliases := by
  obtain ⟨_, _, rfl⟩ := Scope.literalValue_ok h
  rfl

theorem Session.aliases_registers : RegisterRelation fun s s' => s'.aliases = s.aliases where
  refl _ := rfl
  trans h h' := h'.trans h
  defined _ _ := rfl
  reserved _ _ := rfl
  markRead := Lower.markRead_aliases

/-- Only a call records an alias, under the symbol that it is written with. -/
theorem Scope.lowerCallee_aliases {callee : Callee} {symbol : Symbol} {signature : Signature}
    (h : scope.lowerCallee callee s = .ok ((symbol, signature), s')) : s.Aliases [symbol] s' := by
  obtain ⟨_, _, ⟨_, rfl⟩ | ⟨_, rfl⟩⟩ := Scope.lowerCallee_ok h
  · exact (Session.Aliases.refl _).mono (List.nil_subset _)
  · intro name hname
    rw [NameTable.find?_insert] at hname
    split at hname
    · rename_i hsymbol
      exact .inr (by simp [hsymbol])
    · exact .inl hname

end Steps

/-! ## Derivations -/

section Derivations

variable {scope : Scope} {s s' : Session} {ops : List Op}

theorem LowersExprs.aliases {es : List Expr} {registers : List Register}
    (h : LowersExprs scope s es registers ops s') : s.Aliases (Op.callees ops) s' := by
  induction h with
  | nil s => exact .refl s
  | literal value tail ih => exact ih.after (Scope.literalValue_aliases value)
  | constant found value tail ih => exact ih.after (Scope.literalValue_aliases value)
  | var read tail ih => exact ih.after (Lower.readLocal_aliases read)
  | binary operands readLeft readRight result tail ihOperands ih =>
    rw [Op.callees_append]
    exact ihOperands.trans (ih.after ((Lower.markRead_aliases readRight).trans
      (Lower.markRead_aliases readLeft)))
  | cast operand readSource tail ihOperand ih =>
    rw [Op.callees_append]
    exact ihOperand.trans (ih.after (Lower.markRead_aliases readSource))
  | call target arity arguments binding returns tail ihArguments ih =>
    have hall := (Scope.lowerCallee_aliases target).trans
      (ihArguments.trans (ih.after (Session.aliases_registers.bindsArgs binding)))
    refine hall.mono fun name hname => ?_
    simp only [Op.callees_append, Op.callees_call, List.mem_append, List.mem_cons] at hname ⊢
    grind

theorem LowersSimple.aliases {statement : Statement}
    (h : LowersSimple scope s statement ops s') : s.Aliases (Op.callees ops) s' := by
  cases h with
  | declare declares =>
    have hsame := Lower.declareLocal_aliases declares
    exact (Session.Aliases.refl s).before hsame
  | declareInit declares value assigns reads =>
    rw [Op.callees_append]
    have hvalue := value.aliases.after (Lower.declareLocal_aliases declares)
    exact (hvalue.before ((Lower.markRead_aliases reads).trans
      (Lower.assignLocal_aliases assigns))).trans (.refl s')
  | assign known value assigns reads =>
    rw [Op.callees_append]
    exact (value.aliases.before ((Lower.markRead_aliases reads).trans
      (Lower.assignLocal_aliases assigns))).trans (.refl s')
  | eval noCall value => exact value.aliases
  | evalCall target arity arguments binding dropped =>
    have hall := (Scope.lowerCallee_aliases target).trans (arguments.aliases.before
      ((Session.aliases_registers.resultRegister dropped).trans
        (Session.aliases_registers.bindsArgs binding)))
    refine hall.mono fun name hname => ?_
    simp only [Op.callees_append, Op.callees_call, List.mem_append, List.mem_cons] at hname ⊢
    grind
  | printValue value typed printer reads =>
    rw [Op.callees_append]
    exact (value.aliases.before (Lower.markRead_aliases reads)).trans (.refl s')
  | printChar value reads =>
    rw [Op.callees_append]
    exact (value.aliases.before (Lower.markRead_aliases reads)).trans (.refl s')
  | printNewline => exact .refl s
  | printText short => exact .refl s

theorem LowersReturn.aliases {value : Option Expr} (h : LowersReturn scope s value ops s') :
    s.Aliases (Op.callees ops) s' := by
  cases h with
  | value declared value reads =>
    rw [Op.callees_append]
    exact (value.aliases.before (Lower.markRead_aliases reads)).trans (.refl s')
  | nothing declared => exact .refl s

theorem LowersBlock.aliases {block : List Statement} {flow : Flow}
    (h : LowersBlock scope s block flow ops s') : s.Aliases (Op.callees ops) s' := by
  induction h with
  | nil s => exact .refl s
  | simple first tail ih =>
    rw [Op.callees_append]
    exact first.aliases.trans ih
  | ret last => exact last.aliases
  | branchReturns condition reads thenArm elseArm ihThen ihElse =>
    rw [Op.callees_append, Op.callees_branch, Op.callees_nil, List.append_nil]
    exact condition.aliases.trans ((ihThen.trans ihElse).after (Lower.markRead_aliases reads))
  | branch condition reads thenArm elseArm joins tail ihThen ihElse ih =>
    rw [Op.callees_append, Op.callees_branch]
    exact condition.aliases.trans (((ihThen.trans ihElse).trans ih).after
      (Lower.markRead_aliases reads))
  | loop condition reads inner tail ihInner ih =>
    rw [Op.callees_loop]
    exact (condition.aliases.trans (ihInner.after (Lower.markRead_aliases reads))).trans ih

/-- The aliases of a function are symbols that it calls. -/
theorem Shared.Lowers.called {shared : Shared} {function : SourceFunction}
    {lowering : FunctionLowering} (h : shared.Lowers function lowering) {name : Symbol}
    (hname : (lowering.aliases.find? name).isSome) :
    name ∈ Op.callees lowering.function.ops := by
  rcases h.derives with ⟨_, _, _, rfl⟩ | ⟨_, h⟩
  · simp at hname
  · cases h with
    | intro named params body returns =>
      have hbody := body.aliases.after params.aliases_eq name hname
      simpa [SourceFunction.session] using hbody

end Derivations

/-! ## Units -/

/-- The symbols that the functions of a unit call. -/
def LoweredUnit.callees (unit : LoweredUnit) : List Symbol :=
  unit.functions.flatMap (Op.callees ·.ops)

namespace Shared

/-- Adding aliases adds their spellings, and no other. -/
theorem isSome_find?_addAliases {shared : Shared} {entries : List (Symbol × FunctionId)}
    {aliases aliases' : NameTable Signature} (h : shared.addAliases entries aliases = .ok aliases')
    {name : Symbol} : (aliases'.find? name).isSome ↔
      (aliases.find? name).isSome ∨ ∃ entry ∈ entries, entry.1 = name := by
  induction entries generalizing aliases with
  | nil =>
    cases h
    simp
  | cons entry rest ih =>
    obtain ⟨signature, _, hrest⟩ := addAliases_cons_eq_ok.1 h
    rw [ih hrest, NameTable.find?_insert]
    by_cases heq : entry.1 = name <;> simp [heq]

end Shared

namespace Registry

variable {registry : Registry} {spelling : String} {id : FunctionId}

/-- An alias has the key of a symbol that is owned by the function it names. -/
theorem exists_owner_of_alias (h : registry.resolveSymbol spelling = .ok ⟨spelling, id, true⟩) :
    ∃ symbol, registry.owners.find? symbol = some id
      ∧ Name.legacyKey registry.delimiter symbol = Name.legacyKey registry.delimiter spelling := by
  unfold resolveSymbol at h
  rw [owner_of_alias h] at h
  cases hspelling : registry.spelling with
  | canonical =>
    simp only [hspelling] at h
    split at h <;> simp at h
  | legacy =>
    simp only [hspelling] at h
    split at h
    · cases howner : registry.legacyOwner? spelling with
      | none => simp [howner] at h
      | some target =>
        obtain rfl : target = id := by simpa [howner] using h
        obtain ⟨entry, hentry, rfl⟩ := Option.map_eq_some_iff.1 howner
        refine ⟨entry.1, NameTable.find?_of_mem (List.mem_of_find?_eq_some hentry), ?_⟩
        simpa using List.find?_some hentry
    · simp at h

end Registry

namespace SourceUnit

variable {unit : SourceUnit} {settings : Settings} {lowered : LoweredUnit} {name : Symbol}

/-- An alias of a unit was recorded by one of its functions. -/
theorem lower_alias_recorded (h : unit.lower settings = .ok lowered)
    (halias : (lowered.aliases.find? name).isSome) :
    ∃ (shared : Shared) (f : SourceFunction) (lowering : FunctionLowering),
      shared.Describes unit settings ∧ shared.Lowers f lowering
        ∧ lowering.function ∈ lowered.functions ∧ (lowering.aliases.find? name).isSome := by
  obtain ⟨shared, lowerings, hshared, hlower, hfunctions, haliases⟩ := lower_aliases h
  rcases (Shared.isSome_find?_addAliases haliases).1 halias with hnone | ⟨entry, hentry, rfl⟩
  · simp at hnone
  · obtain ⟨lowering, hmem, hentry⟩ := List.mem_flatMap.1 hentry
    obtain ⟨f, _, hlowers⟩ := Shared.exists_lowers hlower hmem
    refine ⟨shared, f, lowering, hshared, hlowers, ?_, ?_⟩
    · rw [hfunctions]
      exact List.mem_map_of_mem hmem
    · simp [NameTable.find?_of_mem hentry]

/-- The symbols of the functions are those that have an owner. -/
theorem mem_symbols_iff_owner (h : unit.lower settings = .ok lowered) {shared : Shared}
    (hshared : shared.Describes unit settings) :
    name ∈ lowered.functions.map (·.symbol) ↔
      ∃ id, shared.registry.owners.find? name = some id := by
  have hsome : name ∈ lowered.functions.map (·.symbol) ↔
      some name ∈ unit.functions.map (·.symbol? settings) := by
    rw [lower_symbols h]
    simp
  rw [hsome, List.mem_map]
  constructor
  · rintro ⟨f, hf, hsymbol⟩
    exact ⟨f.id, (hshared.registered.owner name f.id).2
      ⟨f, hf, rfl, (Shared.symbol?_eq_some hshared).1 hsymbol⟩⟩
  · rintro ⟨id, howner⟩
    obtain ⟨f, hf, rfl, hsymbol⟩ := (hshared.registered.owner name id).1 howner
    exact ⟨f, hf, (Shared.symbol?_eq_some hshared).2 hsymbol⟩

/-- The aliases of a unit are the symbols that its functions call, without their own. -/
theorem lower_alias_iff (h : unit.lower settings = .ok lowered) :
    (lowered.aliases.find? name).isSome ↔
      name ∈ lowered.callees ∧ name ∉ lowered.functions.map (·.symbol) := by
  constructor
  · intro halias
    obtain ⟨shared, f, lowering, hshared, hlowers, hmem, hrecorded⟩ := lower_alias_recorded h halias
    refine ⟨List.mem_flatMap.2 ⟨_, hmem, hlowers.called hrecorded⟩, fun hsymbol => ?_⟩
    obtain ⟨id, hid⟩ := Option.isSome_iff_exists.1 hrecorded
    obtain ⟨owner, howner⟩ := (mem_symbols_iff_owner h hshared).1 hsymbol
    simp [Registry.owner_of_alias (hlowers.resolves name id hid)] at howner
  · rintro ⟨hcallee, hsymbol⟩
    obtain ⟨code, hcode, hcallee⟩ := List.mem_flatMap.1 hcallee
    obtain ⟨dest, args, hop⟩ := Op.mem_callees.1 hcallee
    exact (lower_calls h hcode hop).resolve_left hsymbol

/-- An alias is another spelling of the symbol of a function. -/
theorem lower_alias_target (h : unit.lower settings = .ok lowered)
    (halias : (lowered.aliases.find? name).isSome) :
    ∃ code ∈ lowered.functions, code.symbol ≠ name
      ∧ Name.legacyKey settings.delimiter code.symbol
        = Name.legacyKey settings.delimiter name := by
  obtain ⟨shared, f, lowering, hshared, hlowers, _, hrecorded⟩ := lower_alias_recorded h halias
  obtain ⟨id, hid⟩ := Option.isSome_iff_exists.1 hrecorded
  have hresolves := hlowers.resolves name id hid
  obtain ⟨symbol, howner, hkey⟩ := Registry.exists_owner_of_alias hresolves
  obtain ⟨code, hcode, rfl⟩ := List.mem_map.1 ((mem_symbols_iff_owner h hshared).2 ⟨id, howner⟩)
  refine ⟨code, hcode, ?_, hshared.delimiter ▸ hkey⟩
  rintro rfl
  simp [Registry.owner_of_alias hresolves] at howner

end SourceUnit

end ScalarC
