import ScalarC.Proofs.Lowering.Steps
import ScalarC.Proofs.Name.Registry

/-!
# Registered functions

What the functions of a unit share once all of them are registered: every function
has a symbol, no two have the same, and looking up a symbol or an identity finds the
function that owns it.
-/

namespace ScalarC

/-- In a list without two elements of the same key, looking up a key finds its element. -/
theorem find?_of_pairwise {α β : Type} [BEq β] [LawfulBEq β] {key : α → β} {l : List α}
    (h : l.Pairwise fun a b => key a ≠ key b) {a : α} (ha : a ∈ l) :
    l.find? (fun b => key b == key a) = some a := by
  induction l with
  | nil => simp at ha
  | cons b l ih =>
    obtain ⟨hfirst, hrest⟩ := List.pairwise_cons.1 h
    rcases List.mem_cons.1 ha with rfl | ha
    · simp
    · have hne : (key b == key a) = false := by simpa using hfirst a ha
      rw [List.find?_cons, hne]
      exact ih hrest ha

theorem exists_mem_concat {α : Type} {l : List α} {a : α} {p : α → Prop} :
    (∃ b ∈ l ++ [a], p b) ↔ (∃ b ∈ l, p b) ∨ p a := by
  simp [or_and_right, exists_or]

/-- Every entry of a table is found under its name. -/
theorem NameTable.find?_of_mem {α : Type} {table : NameTable α} {entry : String × α}
    (h : entry ∈ table.entries) : table.find? entry.1 = some entry.2 := by
  have hdistinct : table.entries.Pairwise fun a b => a.1 ≠ b.1 :=
    table.ordered.imp fun hlt => String.ne_of_lt hlt
  simp [find?, find?_of_pairwise hdistinct h]

namespace Registry

theorem register_ok {registry registry' : Registry} {id : FunctionId} {symbol : Symbol}
    (h : registry.register id = .ok (symbol, registry')) :
    registry.Accepts id symbol ∧ registry' = registry.enter symbol id := by
  unfold register at h
  rcases record_cases registry id with ⟨name, haccepts, heq⟩ | ⟨cause, _, heq⟩
  · simp only [heq, Except.ok.injEq, Prod.mk.injEq] at h
    obtain ⟨rfl, rfl⟩ := h
    exact ⟨haccepts, rfl⟩
  · simp [heq] at h

end Registry

namespace Shared

variable {shared shared' : Shared}

/-- The functions are those that were registered: each under a symbol of its own. -/
structure Registered (shared : Shared) (functions : List SourceFunction) : Prop where
  named : ∀ f ∈ functions, ∃ symbol, shared.registry.symbolOf f.id = .ok symbol
  distinct : functions.Pairwise fun f g =>
    shared.registry.symbolOf f.id ≠ shared.registry.symbolOf g.id
  signature : ∀ id signature, shared.signature? id = some signature ↔
    ∃ f ∈ functions, f.id = id ∧ shared.registry.symbolOf id = .ok signature.symbol
      ∧ signature.params = f.paramTypes ∧ signature.returnType = f.returnType
  owner : ∀ symbol id, shared.registry.owners.find? symbol = some id ↔
    ∃ f ∈ functions, f.id = id ∧ shared.registry.symbolOf id = .ok symbol
  consistent : shared.registry.Consistent

/-- Nothing is registered yet. -/
theorem Registered.nil {settings : Settings} {registry : Registry}
    (h : Registry.ofSettings settings = .ok registry) (constants : List Constant) :
    Registered { settings, registry, signatures := [], constants } [] where
  named := nofun
  distinct := .nil
  signature := by simp [signature?]
  owner := by simp [(Registry.ofSettings_ok h).2]
  consistent := Registry.consistent_ofSettings h

/-- One more function is registered. -/
theorem Registered.add {functions : List SourceFunction} (h : shared.Registered functions)
    {function : SourceFunction} {symbol : Symbol} {registry : Registry}
    (hregister : shared.registry.register function.id = .ok (symbol, registry)) :
    Registered { shared with
        registry
        signatures := (function.id, ⟨symbol, function.paramTypes, function.returnType⟩)
          :: shared.signatures }
      (functions ++ [function]) := by
  obtain ⟨haccepts, rfl⟩ := Registry.register_ok hregister
  have hsymbol := haccepts.named
  -- the symbol is free, so no function before has it
  have hnew : ∀ f ∈ functions, shared.registry.symbolOf f.id ≠ .ok symbol := by
    intro f hf heq
    have howner := (h.owner symbol f.id).2 ⟨f, hf, rfl, heq⟩
    simp [haccepts.vacant] at howner
  constructor
  · intro f hf
    rw [Registry.symbolOf_enter]
    rcases List.mem_append.1 hf with hf | hf
    · exact h.named f hf
    · obtain rfl := List.mem_singleton.1 hf
      exact ⟨symbol, hsymbol⟩
  · simp only [Registry.symbolOf_enter]
    refine List.pairwise_append.2 ⟨h.distinct, List.pairwise_singleton _ _, fun f hf g hg => ?_⟩
    obtain rfl := List.mem_singleton.1 hg
    rw [hsymbol]
    exact hnew f hf
  · intro id signature
    rw [Registry.symbolOf_enter, exists_mem_concat]
    by_cases hid : function.id = id
    · subst hid
      simp only [signature?, List.find?_cons, BEq.rfl, Option.map_some, Option.some.injEq]
      constructor
      · rintro rfl
        exact .inr ⟨trivial, hsymbol, rfl, rfl⟩
      · rintro (⟨f, hf, hfid, _⟩ | ⟨_, hname, hparams, hreturns⟩)
        · exact absurd (hfid ▸ hsymbol) (hnew f hf)
        · obtain ⟨_, _, _⟩ := signature
          simp_all
    · have hother : (function.id == id) = false := by simpa using hid
      simp only [signature?, List.find?_cons, hother, hid, false_and, or_false]
      exact h.signature id signature
  · intro name id
    rw [Registry.symbolOf_enter, Registry.owner_enter, exists_mem_concat]
    by_cases hname : symbol = name
    · subst hname
      simp only [if_true, Option.some.injEq]
      constructor
      · rintro rfl
        exact .inr ⟨rfl, hsymbol⟩
      · rintro (⟨f, hf, rfl, hf'⟩ | ⟨rfl, _⟩)
        · exact absurd hf' (hnew f hf)
        · rfl
    · have hother : ¬(function.id = id ∧ shared.registry.symbolOf id = .ok name) := by
        rintro ⟨rfl, hf⟩
        rw [hsymbol, Except.ok.injEq] at hf
        exact hname hf
      rw [if_neg hname, h.owner name id]
      simp only [hother, or_false]
  · exact h.consistent.enter haccepts

/-- Registering one function after the other. -/
theorem Registered.of_registerAll {functions rest : List SourceFunction}
    (h : shared.Registered functions) (hall : shared.registerAll rest = .ok shared') :
    shared'.Registered (functions ++ rest) ∧ shared'.constants = shared.constants
      ∧ shared'.registry.spelling = shared.registry.spelling
      ∧ shared'.registry.delimiter = shared.registry.delimiter := by
  induction rest generalizing shared functions with
  | nil =>
    simp only [registerAll, Except.ok.injEq] at hall
    subst hall
    simpa using h
  | cons function rest ih =>
    unfold registerAll at hall
    split at hall
    · simp [bind_eq_ok] at hall
    · simp only [bind_eq_ok, Prod.exists] at hall
      obtain ⟨symbol, registry, hregister, hall⟩ := hall
      have hrest := ih (h.add hregister) hall
      obtain ⟨_, rfl⟩ := Registry.register_ok hregister
      simpa using hrest

/-- The constants are those of the unit; no name occurs twice. -/
theorem constant?_addConstants {constants : List Constant}
    (h : shared.addConstants constants = .ok shared') (name : String) :
    shared'.constant? name = (shared.constant? name).or (constants.find? (·.name == name)) := by
  induction constants generalizing shared with
  | nil =>
    simp only [addConstants, Except.ok.injEq] at h
    simp [h]
  | cons constant rest ih =>
    unfold addConstants at h
    split at h
    · simp at h
    · rename_i hnew
      rw [ih h]
      have hnone : shared.constant? constant.name = none := by simpa using hnew
      by_cases hname : constant.name = name
      · subst hname
        rw [hnone]
        simp [constant?]
      · have hother : (constant.name == name) = false := by simpa using hname
        simp [constant?, hother]

/-- Adding constants changes nothing else. -/
theorem addConstants_ok {constants : List Constant}
    (h : shared.addConstants constants = .ok shared') :
    shared' = { shared with constants := shared'.constants } := by
  induction constants generalizing shared with
  | nil =>
    simp only [addConstants, Except.ok.injEq] at h
    rw [h]
  | cons constant rest ih =>
    unfold addConstants at h
    split at h
    · simp at h
    · rw [ih h]

/-- What the functions of a unit share. -/
structure Describes (shared : Shared) (unit : SourceUnit) (settings : Settings) : Prop where
  registered : shared.Registered unit.functions
  spelling : shared.registry.spelling = settings.spelling
  delimiter : shared.registry.delimiter = settings.delimiter
  constants : ∀ name, shared.constant? name = unit.constant? name

theorem describes_ofUnit {unit : SourceUnit} {settings : Settings}
    (h : ofUnit unit settings = .ok shared) : shared.Describes unit settings := by
  simp only [ofUnit, bind_eq_ok] at h
  obtain ⟨start, hstart, all, hall, hadd⟩ := h
  obtain ⟨hregistered, hconstants, hspelling, hdelimiter⟩ :=
    (Registered.nil hstart []).of_registerAll hall
  obtain ⟨_, rfl⟩ := Registry.ofSettings_ok hstart
  have hfound := constant?_addConstants hadd
  rw [addConstants_ok hadd]
  refine ⟨⟨?_, ?_, ?_, ?_, ?_⟩, hspelling, hdelimiter, fun name => ?_⟩
  · exact hregistered.named
  · exact hregistered.distinct
  · exact hregistered.signature
  · exact hregistered.owner
  · exact hregistered.consistent
  · simpa [constant?, hconstants, SourceUnit.constant?] using hfound name

namespace Registered

variable {functions : List SourceFunction} {f : SourceFunction}

/-- Functions with different symbols have different identities. -/
theorem distinct_ids (h : shared.Registered functions) :
    functions.Pairwise fun f g => f.id ≠ g.id :=
  h.distinct.imp fun hne heq => hne (by rw [heq])

/-- A function that is resolved has the symbol that its identity gives. -/
theorem symbolOf_of_resolve (h : shared.Registered functions) {id : FunctionId}
    {symbol : Symbol} (hresolve : shared.registry.resolve id = .ok symbol) :
    shared.registry.symbolOf id = .ok symbol := by
  have hsymbol := Registry.resolve_eq_ok.1 hresolve
  exact h.consistent.named symbol id ((h.consistent.inverse symbol id).2 hsymbol)

end Registered

end Shared

end ScalarC
