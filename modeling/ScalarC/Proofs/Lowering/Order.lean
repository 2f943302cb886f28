import Mathlib.Data.List.Forall2
import Mathlib.Data.List.Perm.Basic
import ScalarC.Proofs.Lowering.Respelling
import ScalarC.Proofs.Name.FileScope

/-!
# The order of functions and constants

A unit lists its functions and constants in some order. Whether they can be registered does
not depend on it, and neither do the answers of the look-ups afterwards. So functions are
lowered one by one to the same code wherever they stand, and the parts of the unit that are
collected from all functions stay the same.
-/

namespace ScalarC

/-! ## Look-ups -/

section Keys

variable {α β : Type} [BEq β] [LawfulBEq β] {key : α → β} {l l' : List α}

theorem find?_eq_some_of_pairwise (h : l.Pairwise fun a b => key a ≠ key b) {k : β} {a : α} :
    l.find? (fun b => key b == k) = some a ↔ a ∈ l ∧ key a = k := by
  constructor
  · intro hfind
    exact ⟨List.mem_of_find?_eq_some hfind, by simpa using List.find?_some hfind⟩
  · rintro ⟨ha, rfl⟩
    exact find?_of_pairwise h ha

/-- Looking up a key does not depend on the order, if no key occurs twice. -/
theorem find?_perm (h : l.Pairwise fun a b => key a ≠ key b) (hperm : l.Perm l') (k : β) :
    l.find? (fun b => key b == k) = l'.find? (fun b => key b == k) := by
  have h' : l'.Pairwise fun a b => key a ≠ key b := h.perm hperm Ne.symm
  ext a
  rw [find?_eq_some_of_pairwise h, find?_eq_some_of_pairwise h', hperm.mem_iff]

end Keys

namespace NameTable

variable {α : Type} {table table' : NameTable α}

theorem mem_entries {entry : String × α} :
    entry ∈ table.entries ↔ table.find? entry.1 = some entry.2 := by
  refine ⟨find?_of_mem, fun h => ?_⟩
  obtain ⟨found, hfound, hvalue⟩ := Option.map_eq_some_iff.1 h
  have hname : found.1 = entry.1 := by simpa using List.find?_some hfound
  have hsame : found = entry := Prod.ext hname hvalue
  exact hsame ▸ List.mem_of_find?_eq_some hfound

theorem isSome_find? {name : String} :
    (table.find? name).isSome ↔ name ∈ table.entries.map (·.1) := by
  simp [find?, List.find?_isSome]

/-- A table is determined by what it finds. -/
theorem eq_of_find? (h : ∀ name, table.find? name = table'.find? name) : table = table' := by
  have hnodup : ∀ t : NameTable α, t.entries.Nodup := fun t =>
    t.ordered.imp fun hlt heq => String.ne_of_lt hlt (congrArg Prod.fst heq)
  have hperm : table.entries.Perm table'.entries := by
    refine (List.perm_ext_iff_of_nodup (hnodup table) (hnodup table')).2 fun entry => ?_
    rw [mem_entries, mem_entries, h]
  have hentries : table.entries = table'.entries :=
    hperm.eq_of_pairwise (fun a b _ _ hab hba => absurd hba (String.lt_asymm hab)) table.ordered
      table'.ordered
  obtain ⟨entries, ordered⟩ := table
  obtain ⟨entries', ordered'⟩ := table'
  subst hentries
  rfl

theorem insert_comm {name name' : String} (h : name ≠ name') (table : NameTable α)
    (value value' : α) :
    (table.insert name value).insert name' value' = (table.insert name' value').insert name value := by
  refine eq_of_find? fun other => ?_
  simp only [find?_insert]
  grind

end NameTable

/-! ## Registration -/

namespace Registry

variable {registry registry' : Registry} {id other : FunctionId} {symbol name : Symbol}

theorem register_eq_ok : registry.register id = .ok (symbol, registry') ↔
    registry.Accepts id symbol ∧ registry' = registry.enter symbol id := by
  refine ⟨register_ok, fun ⟨haccepts, henter⟩ => ?_⟩
  unfold register
  rcases record_cases registry id with ⟨found, hfound, heq⟩ | ⟨cause, hrefused, _⟩
  · obtain rfl : found = symbol := by simpa [hfound.named] using haccepts.named
    rw [heq, henter]
  · exact absurd haccepts (hrefused symbol)

theorem accepts_enter : (registry.enter symbol id).Accepts other name ↔
    registry.Accepts other name ∧ symbol ≠ name := by
  constructor
  · rintro ⟨hnamed, hunreserved, hvacant⟩
    rw [owner_enter] at hvacant
    split at hvacant
    · simp at hvacant
    · rename_i hne
      exact ⟨⟨hnamed, hunreserved, hvacant⟩, hne⟩
  · rintro ⟨haccepts, hne⟩
    refine ⟨haccepts.named, haccepts.unreserved, ?_⟩
    rw [owner_enter, if_neg hne]
    exact haccepts.vacant

/-- All the functions can be registered, whatever their order. -/
structure AcceptsAll (registry : Registry) (functions : List SourceFunction) : Prop where
  params : ∀ f ∈ functions, ∀ param ∈ f.params, Name.isIdentifier param.name = true
  accepts : ∀ f ∈ functions, ∃ symbol, registry.Accepts f.id symbol
  distinct : functions.Pairwise fun f g => registry.symbolOf f.id ≠ registry.symbolOf g.id

variable {function : SourceFunction} {functions functions' : List SourceFunction}

theorem AcceptsAll.perm (h : registry.AcceptsAll functions) (hperm : functions.Perm functions') :
    registry.AcceptsAll functions' where
  params f hf := h.params f (hperm.mem_iff.2 hf)
  accepts f hf := h.accepts f (hperm.mem_iff.2 hf)
  distinct := h.distinct.perm hperm Ne.symm

theorem acceptsAll_cons : registry.AcceptsAll (function :: functions) ↔
    (∀ param ∈ function.params, Name.isIdentifier param.name = true)
      ∧ ∃ symbol, registry.Accepts function.id symbol
        ∧ (registry.enter symbol function.id).AcceptsAll functions := by
  constructor
  · rintro ⟨hparams, haccepts, hdistinct⟩
    obtain ⟨symbol, hsymbol⟩ := haccepts function List.mem_cons_self
    obtain ⟨hfirst, hrest⟩ := List.pairwise_cons.1 hdistinct
    refine ⟨hparams function List.mem_cons_self, symbol, hsymbol, ?_⟩
    refine ⟨fun f hf => hparams f (List.mem_cons_of_mem _ hf), fun f hf => ?_, hrest⟩
    obtain ⟨name, hname⟩ := haccepts f (List.mem_cons_of_mem _ hf)
    refine ⟨name, accepts_enter.2 ⟨hname, fun heq => hfirst f hf ?_⟩⟩
    rw [hsymbol.named, hname.named, heq]
  · rintro ⟨hparams, symbol, hsymbol, hrest⟩
    refine ⟨?_, ?_, List.pairwise_cons.2 ⟨fun f hf heq => ?_, hrest.distinct⟩⟩
    · exact List.forall_mem_cons.2 ⟨hparams, hrest.params⟩
    · refine List.forall_mem_cons.2 ⟨⟨symbol, hsymbol⟩, fun f hf => ?_⟩
      obtain ⟨name, hname⟩ := hrest.accepts f hf
      exact ⟨name, (accepts_enter.1 hname).1⟩
    · obtain ⟨name, hname⟩ := hrest.accepts f hf
      obtain ⟨hname, hne⟩ := accepts_enter.1 hname
      rw [hsymbol.named, hname.named, Except.ok.injEq] at heq
      exact hne heq

end Registry

namespace Shared

variable {shared shared' : Shared} {settings : Settings} {unit unit' : SourceUnit}

theorem registerAll_cons_eq_ok {function : SourceFunction} {rest : List SourceFunction} :
    shared.registerAll (function :: rest) = .ok shared' ↔
      (∀ param ∈ function.params, Name.isIdentifier param.name = true)
        ∧ ∃ symbol, shared.registry.Accepts function.id symbol
          ∧ registerAll { shared with
              registry := shared.registry.enter symbol function.id
              signatures := (function.id, ⟨symbol, function.paramTypes, function.returnType⟩)
                :: shared.signatures } rest = .ok shared' := by
  have hparams : (∀ param ∈ function.params, Name.isIdentifier param.name = true) ↔
      function.params.find? (fun p => !Name.isIdentifier p.name) = none := by
    simp [List.find?_eq_none]
  rw [hparams, registerAll]
  cases function.params.find? fun p => !Name.isIdentifier p.name with
  | some param => simp [bind_eq_ok]
  | none =>
    simp only [bind_eq_ok, Prod.exists, Registry.register_eq_ok, true_and]
    constructor
    · rintro ⟨symbol, _, ⟨haccepts, rfl⟩, hrest⟩
      exact ⟨symbol, haccepts, hrest⟩
    · rintro ⟨symbol, haccepts, hrest⟩
      exact ⟨symbol, _, ⟨haccepts, rfl⟩, hrest⟩

theorem registerAll_isOk {functions : List SourceFunction} :
    (∃ shared', shared.registerAll functions = .ok shared') ↔
      shared.registry.AcceptsAll functions := by
  induction functions generalizing shared with
  | nil => exact ⟨fun _ => ⟨by simp, by simp, .nil⟩, fun _ => ⟨shared, rfl⟩⟩
  | cons function rest ih =>
    simp only [Registry.acceptsAll_cons, registerAll_cons_eq_ok, exists_and_left]
    rw [exists_comm]
    simp only [exists_and_left, ih]

theorem constant?_cons (constant : Constant) (name : String) :
    constant? { shared with constants := constant :: shared.constants } name
      = if constant.name = name then some constant else shared.constant? name := by
  by_cases hname : constant.name = name <;> simp [constant?, hname]

theorem addConstants_isOk {constants : List Constant} :
    (∃ shared', shared.addConstants constants = .ok shared') ↔
      (∀ constant ∈ constants, shared.constant? constant.name = none)
        ∧ constants.Pairwise fun a b => a.name ≠ b.name := by
  induction constants generalizing shared with
  | nil => simp [addConstants]
  | cons constant rest ih =>
    unfold addConstants
    by_cases hnew : shared.constant? constant.name = none
    · simp only [hnew, Option.isSome_none, Bool.false_eq_true, if_false, ih, List.pairwise_cons,
        List.forall_mem_cons, true_and]
      have hstep : ∀ name, constant? { shared with constants := constant :: shared.constants } name
          = none ↔ constant.name ≠ name ∧ shared.constant? name = none := by
        intro name
        rw [constant?_cons]
        split <;> simp_all
      simp only [hstep]
      constructor
      · rintro ⟨hrest, hdistinct⟩
        exact ⟨fun c hc => (hrest c hc).2, fun c hc => (hrest c hc).1, hdistinct⟩
      · rintro ⟨hrest, hfirst, hdistinct⟩
        exact ⟨fun c hc => ⟨hfirst c hc, hrest c hc⟩, hdistinct⟩
    · have htaken : (shared.constant? constant.name).isSome = true := by
        simpa [Option.isSome_iff_ne_none] using hnew
      simp [htaken, hnew]

/-- What has to hold of the functions and constants of a unit, in any order. -/
theorem ofUnit_isOk : (∃ shared, ofUnit unit settings = .ok shared) ↔
    ∃ registry, Registry.ofSettings settings = .ok registry
      ∧ registry.AcceptsAll unit.functions
      ∧ unit.constants.Pairwise fun a b => a.name ≠ b.name := by
  simp only [ofUnit, bind_eq_ok]
  constructor
  · rintro ⟨shared, registry, hstart, all, hall, hadd⟩
    exact ⟨registry, hstart, registerAll_isOk.1 ⟨all, hall⟩, (addConstants_isOk.1 ⟨shared, hadd⟩).2⟩
  · rintro ⟨registry, hstart, haccepts, hdistinct⟩
    obtain ⟨all, hall⟩ : ∃ all, registerAll { settings, registry, signatures := [], constants := [] }
        unit.functions = .ok all :=
      registerAll_isOk.2 haccepts
    have hnone : ∀ name, all.constant? name = none := by
      intro name
      simp [constant?, ((Registered.nil hstart []).of_registerAll hall).2.1]
    obtain ⟨shared, hadd⟩ := addConstants_isOk.2 ⟨fun c _ => hnone c.name, hdistinct⟩
    exact ⟨shared, registry, hstart, all, hall, hadd⟩

theorem settings_registerAll {functions : List SourceFunction}
    (h : shared.registerAll functions = .ok shared') : shared'.settings = shared.settings := by
  induction functions generalizing shared with
  | nil =>
    cases h
    rfl
  | cons function rest ih =>
    obtain ⟨_, symbol, _, hrest⟩ := registerAll_cons_eq_ok.1 h
    have hsettings := ih hrest
    exact hsettings

theorem settings_ofUnit (h : ofUnit unit settings = .ok shared) : shared.settings = settings := by
  simp only [ofUnit, bind_eq_ok] at h
  obtain ⟨registry, _, all, hall, hadd⟩ := h
  rw [addConstants_ok hadd]
  exact settings_registerAll hall

end Shared

/-! ## Reordered units -/

/-- The same unit, except for the order of its functions and constants. -/
structure SourceUnit.Reorders (unit unit' : SourceUnit) : Prop where
  name : unit.name = unit'.name
  functions : unit.functions.Perm unit'.functions
  constants : unit.constants.Perm unit'.constants

namespace Shared

variable {shared shared' : Shared} {settings : Settings} {unit unit' : SourceUnit}

theorem ofUnit_reordered (hunits : unit.Reorders unit')
    (h : ofUnit unit settings = .ok shared) : ∃ shared', ofUnit unit' settings = .ok shared' := by
  obtain ⟨registry, hstart, haccepts, hdistinct⟩ := ofUnit_isOk.1 ⟨shared, h⟩
  exact ofUnit_isOk.2 ⟨registry, hstart, haccepts.perm hunits.functions,
    hdistinct.perm hunits.constants Ne.symm⟩

section Agreement

variable (hunits : unit.Reorders unit') (hshared : shared.Describes unit settings)
  (hshared' : shared'.Describes unit' settings)

include hshared hshared'

theorem symbolOf_reordered (id : FunctionId) :
    shared'.registry.symbolOf id = shared.registry.symbolOf id :=
  Registry.symbolOf_congr (hshared'.spelling.trans hshared.spelling.symm)
    (hshared'.delimiter.trans hshared.delimiter.symm) id

include hunits

theorem owners_reordered : shared'.registry.owners = shared.registry.owners := by
  refine NameTable.eq_of_find? fun symbol => ?_
  ext id
  rw [hshared'.registered.owner, hshared.registered.owner, symbolOf_reordered hshared hshared']
  simp only [hunits.functions.mem_iff]

theorem signature?_reordered (id : FunctionId) : shared'.signature? id = shared.signature? id := by
  ext signature
  rw [hshared'.registered.signature, hshared.registered.signature,
    symbolOf_reordered hshared hshared']
  simp only [hunits.functions.mem_iff]

theorem resolve_reordered (id : FunctionId) :
    shared'.registry.resolve id = shared.registry.resolve id := by
  have hsymbol : shared'.registry.symbol? id = shared.registry.symbol? id := by
    ext symbol
    rw [← hshared'.registered.consistent.inverse, ← hshared.registered.consistent.inverse,
      owners_reordered hunits hshared hshared']
  simp only [Registry.resolve, hsymbol]

theorem resolveSymbol_reordered (spelling : String) :
    shared'.registry.resolveSymbol spelling = shared.registry.resolveSymbol spelling := by
  simp only [Registry.resolveSymbol, Registry.legacyOwner?, hshared.spelling, hshared'.spelling,
    hshared.delimiter, hshared'.delimiter, owners_reordered hunits hshared hshared']

end Agreement

/-- What is shared by a reordered unit answers all questions in the same way. -/
theorem agrees_reordered (hunits : unit.Reorders unit')
    (h : ofUnit unit settings = .ok shared) (h' : ofUnit unit' settings = .ok shared') :
    Agrees Eq shared shared' where
  overflow := by rw [settings_ofUnit h, settings_ofUnit h']
  resolve := resolve_reordered hunits (describes_ofUnit h) (describes_ofUnit h')
  constant? name := by
    obtain ⟨_, _, _, hdistinct⟩ := ofUnit_isOk.1 ⟨shared, h⟩
    rw [(describes_ofUnit h).constants, (describes_ofUnit h').constants]
    exact (find?_perm hdistinct hunits.constants name).symm
  lowerCallee := by
    rintro callee _ rfl function function'
    have hsignature := signature?_reordered hunits (describes_ofUnit h) (describes_ofUnit h')
    have hresolve := resolveSymbol_reordered hunits (describes_ofUnit h) (describes_ofUnit h')
    cases callee with
    | function id =>
      simp only [Scope.lowerCallee, hsignature]
      exact fun _ _ _ => Iff.rfl
    | symbol spelling =>
      simp only [Scope.lowerCallee, hsignature, hresolve]
      exact fun _ _ _ => Iff.rfl

/-- The entry point is the same, as there has to be one candidate only. -/
theorem entryPoint_reordered (hunits : unit.Reorders unit')
    (hsettings : shared'.settings = shared.settings)
    (hresolve : ∀ id, shared'.registry.resolve id = shared.registry.resolve id) :
    shared'.entryPoint unit' = shared.entryPoint unit := by
  unfold entryPoint
  rw [hsettings]
  cases shared.settings.entry with
  | none => rfl
  | some name =>
    have hcandidates := ((hunits.functions.filter (·.name == name)).filter (!·.isExternal))
    dsimp only [SourceUnit.functionsNamed]
    generalize (unit.functions.filter (·.name == name)).filter (!·.isExternal) = candidates
      at hcandidates ⊢
    generalize (unit'.functions.filter (·.name == name)).filter (!·.isExternal) = candidates'
      at hcandidates ⊢
    cases candidates with
    | nil =>
      obtain rfl := List.nil_perm.1 hcandidates
      rfl
    | cons f rest =>
      cases rest with
      | nil =>
        obtain rfl := List.singleton_perm.1 hcandidates
        simp only [hresolve]
      | cons g rest =>
        -- several candidates are refused, with their number
        have hlength := hcandidates.length_eq
        rcases candidates' with _ | ⟨f', _ | ⟨g', rest'⟩⟩
        · simp at hlength
        · simp at hlength
        · simp only [hlength]

theorem addAliases_cons_eq_ok {entry : Symbol × FunctionId} {rest : List (Symbol × FunctionId)}
    {aliases aliases' : NameTable Signature} :
    shared.addAliases (entry :: rest) aliases = .ok aliases' ↔
      ∃ signature, shared.signature? entry.2 = some signature
        ∧ shared.addAliases rest (aliases.insert entry.1 { signature with symbol := entry.1 })
          = .ok aliases' := by
  rw [addAliases]
  cases shared.signature? entry.2 <;> simp

/-- Aliases can be added in any order, if a spelling has one target only. -/
theorem addAliases_perm {entries entries' : List (Symbol × FunctionId)}
    (hperm : entries.Perm entries')
    (hsame : ∀ a ∈ entries, ∀ b ∈ entries, a.1 = b.1 → a.2 = b.2)
    {aliases aliases' : NameTable Signature}
    (h : shared.addAliases entries aliases = .ok aliases') :
    shared.addAliases entries' aliases = .ok aliases' := by
  induction hperm generalizing aliases with
  | nil => exact h
  | cons entry _ ih =>
    obtain ⟨signature, hsignature, hrest⟩ := addAliases_cons_eq_ok.1 h
    refine addAliases_cons_eq_ok.2 ⟨signature, hsignature, ih ?_ hrest⟩
    exact fun a ha b hb => hsame a (List.mem_cons_of_mem _ ha) b (List.mem_cons_of_mem _ hb)
  | swap a b rest =>
    by_cases hspelling : b.1 = a.1
    · have htarget := hsame b (by simp) a (by simp) hspelling
      rwa [show a = b from Prod.ext hspelling.symm htarget.symm] at h ⊢
    · obtain ⟨second, hsecond, h⟩ := addAliases_cons_eq_ok.1 h
      obtain ⟨first, hfirst, h⟩ := addAliases_cons_eq_ok.1 h
      rw [NameTable.insert_comm hspelling] at h
      exact addAliases_cons_eq_ok.2 ⟨first, hfirst, addAliases_cons_eq_ok.2 ⟨second, hsecond, h⟩⟩
  | trans hfirst _ ih ih' =>
    refine ih' (fun a ha b hb => ?_) (ih hsame h)
    exact hsame a (hfirst.mem_iff.2 ha) b (hfirst.mem_iff.2 hb)

end Shared

theorem LoweredFunction.checkNames_eq_ok {symbols : List Symbol}
    {functions : List LoweredFunction} :
    checkNames symbols functions = .ok () ↔
      ∀ code ∈ functions, ∀ name ∈ code.ownNames, name ∉ symbols := by
  refine ⟨checkNames_ok, fun h => ?_⟩
  induction functions with
  | nil => rfl
  | cons first rest ih =>
    obtain ⟨hfirst, hrest⟩ := List.forall_mem_cons.1 h
    have hnone : first.ownNames.find? (symbols.contains ·) = none := by
      simpa [List.find?_eq_none] using hfirst
    rw [checkNames, hnone]
    exact ih hrest

/-! ## Lowered units -/

/-- The functions of a unit, each with what it is lowered to, and what the lowered unit takes
from them. -/
structure SourceUnit.HasBlocks (unit : SourceUnit) (settings : Settings)
    (blocks : List (SourceFunction × FunctionLowering)) (lowered : LoweredUnit) : Prop where
  source : unit.functions = blocks.map (·.1)
  lowers : ∃ shared, Shared.ofUnit unit settings = .ok shared
    ∧ ∀ block ∈ blocks, shared.Lowers block.1 block.2
  functions : lowered.functions = blocks.map (·.2.function)
  diagnostics : lowered.diagnostics = blocks.flatMap (·.2.diagnostics)

/-- A reordering of the first parts of pairs is one of the pairs. -/
theorem exists_perm_of_map_fst {α β : Type} {pairs : List (α × β)} {l : List α}
    (h : l.Perm (pairs.map (·.1))) : ∃ pairs', pairs.Perm pairs' ∧ l = pairs'.map (·.1) := by
  have hfirst : List.Forall₂ (fun a pair => a = pair.1) (pairs.map (·.1)) pairs := by
    simp [List.forall₂_map_left_iff, List.forall₂_same]
  obtain ⟨pairs', hpairs, hperm⟩ := List.perm_comp_forall₂ h hfirst
  refine ⟨pairs', hperm.symm, ?_⟩
  rw [← List.forall₂_eq_eq_eq, List.forall₂_map_right_iff]
  exact hpairs

namespace Shared

variable {shared shared' : Shared} {settings : Settings} {unit unit' : SourceUnit}
  {blocks blocks' : List (SourceFunction × FunctionLowering)} {lowered : LoweredUnit}

theorem forall₂_lowers_blocks :
    List.Forall₂ shared.Lowers (blocks.map (·.1)) (blocks.map (·.2)) ↔
      ∀ block ∈ blocks, shared.Lowers block.1 block.2 := by
  rw [List.forall₂_map_left_iff, List.forall₂_map_right_iff, List.forall₂_same]

/-- The lowerings stand beside the functions that they come from. -/
theorem LowersUnit.exists_blocks {lowerings : List FunctionLowering}
    (h : shared.LowersUnit unit lowerings lowered) :
    ∃ blocks : List (SourceFunction × FunctionLowering),
      unit.functions = blocks.map (·.1) ∧ lowerings = blocks.map (·.2) := by
  have hlength := h.lowers.length_eq
  refine ⟨unit.functions.zip lowerings, ?_, ?_⟩
  · exact (List.map_fst_zip hlength.le).symm
  · exact (List.map_snd_zip hlength.ge).symm

theorem LowersUnit.hasBlocks (hshared : ofUnit unit settings = .ok shared)
    (hsource : unit.functions = blocks.map (·.1))
    (h : shared.LowersUnit unit (blocks.map (·.2)) lowered) :
    unit.HasBlocks settings blocks lowered := by
  refine ⟨hsource, ⟨shared, hshared, forall₂_lowers_blocks.1 (hsource ▸ h.lowers)⟩, ?_, ?_⟩
  · rw [h.functions, List.map_map]
    rfl
  · rw [h.diagnostics, List.flatMap_map]

/-- A spelling has the same target in all functions. -/
theorem target_of_lowers (h : ∀ block ∈ blocks, shared.Lowers block.1 block.2)
    {a b : Symbol × FunctionId}
    (ha : a ∈ (blocks.map (·.2)).flatMap (·.aliases.entries))
    (hb : b ∈ (blocks.map (·.2)).flatMap (·.aliases.entries)) (hspelling : a.1 = b.1) :
    a.2 = b.2 := by
  have hresolves : ∀ e ∈ (blocks.map (·.2)).flatMap (·.aliases.entries),
      shared.registry.resolveSymbol e.1 = .ok ⟨e.1, e.2, true⟩ := by
    intro e he
    obtain ⟨lowering, hlowering, he⟩ := List.mem_flatMap.1 he
    obtain ⟨block, hblock, rfl⟩ := List.mem_map.1 hlowering
    exact (h block hblock).resolves e.1 e.2 (NameTable.find?_of_mem he)
  have hsame := hresolves a ha
  rw [hspelling, hresolves b hb] at hsame
  simpa using hsame.symm

/-- The lowered unit of a reordered unit. -/
theorem LowersUnit.reordered (hunits : unit.Reorders unit')
    (hshared : ofUnit unit settings = .ok shared) (hshared' : ofUnit unit' settings = .ok shared')
    (hsource : unit.functions = blocks.map (·.1)) (hsource' : unit'.functions = blocks'.map (·.1))
    (hperm : blocks.Perm blocks') (h : shared.LowersUnit unit (blocks.map (·.2)) lowered) :
    shared'.LowersUnit unit' (blocks'.map (·.2)) { lowered with
      functions := blocks'.map (·.2.function)
      diagnostics := blocks'.flatMap (·.2.diagnostics) } := by
  have hagrees := agrees_reordered hunits hshared hshared'
  have hlowers := forall₂_lowers_blocks.1 (hsource ▸ h.lowers)
  refine ⟨h.name.trans hunits.name, ?_, ?_, ?_, ?_, ?_, ?_⟩
  · rw [hsource']
    refine forall₂_lowers_blocks.2 fun block hblock => ?_
    exact (hagrees.lowers_iff (.refl (fun _ => rfl) _)).1 (hlowers block (hperm.mem_iff.2 hblock))
  · rw [List.map_map]
    rfl
  · rw [List.flatMap_map]
  · rw [addAliases_congr (signature?_reordered hunits (describes_ofUnit hshared)
      (describes_ofUnit hshared'))]
    refine addAliases_perm ((hperm.map _).flatMap_right _) (fun a ha b hb => ?_) h.aliases
    exact target_of_lowers hlowers ha hb
  · have hcodes : lowered.functions.Perm (blocks'.map (·.2.function)) :=
      (h.hasBlocks hshared hsource).functions ▸ hperm.map _
    refine LoweredFunction.checkNames_eq_ok.2 fun code hcode name hname hmem => ?_
    refine LoweredFunction.checkNames_eq_ok.1 h.checked code (hcodes.mem_iff.2 hcode) name hname ?_
    exact (hcodes.map _).mem_iff.2 hmem
  · rw [← h.entry]
    refine entryPoint_reordered hunits ?_ hagrees.resolve
    rw [settings_ofUnit hshared, settings_ofUnit hshared']

end Shared

namespace SourceUnit

variable {unit unit' : SourceUnit} {settings : Settings}

theorem Reorders.symm (h : unit.Reorders unit') : unit'.Reorders unit :=
  ⟨h.name.symm, h.functions.symm, h.constants.symm⟩

/-- The two lowered units have the same blocks in another order, and the other parts are
equal. -/
theorem exists_lower_of_reordered (hunits : unit.Reorders unit') {lowered : LoweredUnit}
    (h : unit.lower settings = .ok lowered) :
    ∃ lowered', unit'.lower settings = .ok lowered' ∧ ∃ blocks blocks',
      unit.HasBlocks settings blocks lowered ∧ unit'.HasBlocks settings blocks' lowered'
      ∧ blocks.Perm blocks' ∧ lowered.name = lowered'.name
      ∧ lowered.aliases = lowered'.aliases ∧ lowered.entry = lowered'.entry := by
  obtain ⟨shared, lowerings, hshared, hunit⟩ := lower_eq_ok.1 h
  obtain ⟨shared', hshared'⟩ := Shared.ofUnit_reordered hunits hshared
  obtain ⟨blocks, hsource, rfl⟩ := hunit.exists_blocks
  obtain ⟨blocks', hperm, hsource'⟩ := exists_perm_of_map_fst (hsource ▸ hunits.functions.symm)
  have hunit' := hunit.reordered hunits hshared hshared' hsource hsource' hperm
  exact ⟨_, lower_eq_ok.2 ⟨shared', _, hshared', hunit'⟩, blocks, blocks',
    hunit.hasBlocks hshared hsource, hunit'.hasBlocks hshared' hsource', hperm, rfl, rfl, rfl⟩

/-- The order of functions and constants does not matter. A reordered unit is accepted exactly
if the unit is. Then every function has the same lowering in both, the diagnostics are those of
the same blocks in another order, and the aliases and the entry point are equal. -/
theorem lower_reordered (hname : unit.name = unit'.name)
    (hfunctions : unit.functions.Perm unit'.functions)
    (hconstants : unit.constants.Perm unit'.constants) (settings : Settings) :
    ((∃ lowered, unit.lower settings = .ok lowered) ↔
      ∃ lowered', unit'.lower settings = .ok lowered')
    ∧ ∀ lowered lowered', unit.lower settings = .ok lowered →
      unit'.lower settings = .ok lowered' →
        ∃ blocks blocks', unit.HasBlocks settings blocks lowered
          ∧ unit'.HasBlocks settings blocks' lowered'
          ∧ blocks.Perm blocks' ∧ lowered.name = lowered'.name
          ∧ lowered.aliases = lowered'.aliases ∧ lowered.entry = lowered'.entry := by
  have hunits : unit.Reorders unit' := ⟨hname, hfunctions, hconstants⟩
  refine ⟨⟨fun ⟨lowered, h⟩ => ?_, fun ⟨lowered', h'⟩ => ?_⟩, fun lowered lowered' h h' => ?_⟩
  · obtain ⟨lowered', h', _⟩ := exists_lower_of_reordered hunits h
    exact ⟨lowered', h'⟩
  · obtain ⟨lowered, h, _⟩ := exists_lower_of_reordered hunits.symm h'
    exact ⟨lowered, h⟩
  · obtain ⟨found, hfound, hblocks⟩ := exists_lower_of_reordered hunits h
    rw [h', Except.ok.injEq] at hfound
    exact hfound ▸ hblocks

end SourceUnit

namespace Sample

/-- Calls a function in another spelling, and has a literal out of range. -/
def caller : SourceFunction where
  path := ""
  moduleName := "m"
  name := "main"
  body :=
    [.eval (.call (.symbol "lib_math_ops_half_of$u16") [.constant "wide"]),
      .print (.value (.literal ⟨300, .u8⟩))]

/-- Reads a constant whose value is out of range. -/
def reader : SourceFunction where
  path := ""
  moduleName := "m"
  name := "reader"
  body := [.print (.value (.constant "limit"))]

/-- The functions and constants in a given order. -/
def arranged (functions : List SourceFunction) (constants : List Constant) : SourceUnit :=
  { name := "arranged", functions, constants }

def constants : List Constant := [⟨"limit", .i8, 200⟩, ⟨"wide", .u16, 1000⟩]

end Sample

/-- The caller stands before or behind the function that it calls, and the two warnings trade
their places. -/
theorem SourceUnit.lower_reordered_arranged :
    ∃ unit unit' lowered lowered',
      unit = Sample.arranged [Sample.caller, Sample.half, Sample.reader] Sample.constants
      ∧ unit' = Sample.arranged [Sample.half, Sample.reader, Sample.caller]
        Sample.constants.reverse
      ∧ unit.lower .legacy = .ok lowered ∧ unit'.lower .legacy = .ok lowered'
      ∧ lowered.diagnostics.map (·.message)
        = ["in m::main: literal 300 does not fit in u8", "in m::reader: literal 200 does not fit in i8"]
      ∧ lowered.aliases.entries.map (·.1) = ["lib_math_ops_half_of$u16"]
      ∧ ∃ blocks blocks', unit.HasBlocks .legacy blocks lowered
        ∧ unit'.HasBlocks .legacy blocks' lowered'
        ∧ blocks.Perm blocks' ∧ lowered.name = lowered'.name
        ∧ lowered.aliases = lowered'.aliases ∧ lowered.entry = lowered'.entry := by
  let unit := Sample.arranged [Sample.caller, Sample.half, Sample.reader] Sample.constants
  let unit' := Sample.arranged [Sample.half, Sample.reader, Sample.caller] Sample.constants.reverse
  have hname : unit.name = unit'.name := rfl
  have hfunctions : unit.functions.Perm unit'.functions := by
    change ([Sample.caller] ++ [Sample.half, Sample.reader]).Perm _
    exact List.perm_append_comm
  have hreorders := lower_reordered hname hfunctions (List.reverse_perm _).symm .legacy
  have hlower : (unit.lower .legacy).toOption.map
      (fun lowered => (lowered.diagnostics.map (·.message), lowered.aliases.entries.map (·.1)))
      = some (["in m::main: literal 300 does not fit in u8",
        "in m::reader: literal 200 does not fit in i8"], ["lib_math_ops_half_of$u16"]) := by
    decide +kernel
  cases h : unit.lower .legacy with
  | error abort => simp [h, Except.toOption] at hlower
  | ok lowered =>
    simp only [h, Except.toOption, Option.map_some, Option.some.injEq, Prod.mk.injEq] at hlower
    obtain ⟨lowered', h'⟩ := hreorders.1.1 ⟨lowered, h⟩
    refine ⟨unit, unit', lowered, lowered', rfl, rfl, h, h', hlower.1, hlower.2, ?_⟩
    exact hreorders.2 lowered lowered' h h'

end ScalarC
