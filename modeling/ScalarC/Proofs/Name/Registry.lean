import Mathlib.Data.List.Induction
import ScalarC.Name.Registry

/-!
# Runs of a registry

A registry is used by a series of calls, some of which are refused. One call either
enters a function under a free symbol or changes nothing. So after any series of calls
the two sides of the registry are inverse to each other, and they hold exactly the
functions that were accepted.
-/

namespace ScalarC

namespace Registry

variable {registry : Registry} {symbol : Symbol} {id : FunctionId}

/-! ## One call -/

/-- Only the spelling and the delimiter go into a symbol. -/
theorem symbolOf_congr {registry registry' : Registry}
    (hspelling : registry.spelling = registry'.spelling)
    (hdelimiter : registry.delimiter = registry'.delimiter) (id : FunctionId) :
    registry.symbolOf id = registry'.symbolOf id := by
  simp [symbolOf, hspelling, hdelimiter]

@[simp] theorem spelling_enter (registry : Registry) (symbol : Symbol) (id : FunctionId) :
    (registry.enter symbol id).spelling = registry.spelling := rfl

@[simp] theorem delimiter_enter (registry : Registry) (symbol : Symbol) (id : FunctionId) :
    (registry.enter symbol id).delimiter = registry.delimiter := rfl

@[simp] theorem symbolOf_enter (registry : Registry) (symbol : Symbol) (id other : FunctionId) :
    (registry.enter symbol id).symbolOf other = registry.symbolOf other := rfl

theorem owner_enter (registry : Registry) (symbol : Symbol) (id : FunctionId) (other : Symbol) :
    (registry.enter symbol id).owners.find? other
      = if symbol = other then some id else registry.owners.find? other :=
  NameTable.find?_insert registry.owners symbol id other

theorem symbol?_enter (registry : Registry) (symbol : Symbol) (id other : FunctionId) :
    (registry.enter symbol id).symbol? other
      = if id = other then some symbol else registry.symbol? other := by
  by_cases h : id = other <;> simp [enter, symbol?, h]

/-- The function has a symbol that is neither reserved nor taken. -/
structure Accepts (registry : Registry) (id : FunctionId) (symbol : Symbol) : Prop where
  named : registry.symbolOf id = .ok symbol
  unreserved : Name.isReserved symbol = false
  vacant : registry.owners.find? symbol = none

/-- A call enters the function if it is accepted, and otherwise changes nothing. -/
theorem record_cases (registry : Registry) (id : FunctionId) :
    (∃ symbol, registry.Accepts id symbol
      ∧ registry.record id = (.ok symbol, registry.enter symbol id))
    ∨ (∃ cause, (∀ symbol, ¬registry.Accepts id symbol)
      ∧ registry.record id = (.error cause, registry)) := by
  unfold record
  split
  · rename_i cause hcause
    refine .inr ⟨cause, fun symbol h => ?_, rfl⟩
    simp [h.named] at hcause
  · rename_i symbol hsymbol
    have hsame : ∀ other, registry.Accepts id other → other = symbol := by
      intro other h
      simpa [h.named] using hsymbol
    split
    · rename_i hreserved
      refine .inr ⟨_, fun other h => ?_, rfl⟩
      have hfree := h.unreserved
      simp [hsame other h, hreserved] at hfree
    · rename_i hfree
      split
      · rename_i owner howner
        refine .inr ⟨_, fun other h => ?_, rfl⟩
        have hvacant := h.vacant
        simp [hsame other h, howner] at hvacant
      · rename_i hvacant
        exact .inl ⟨symbol, ⟨hsymbol, by simpa using hfree, hvacant⟩, rfl⟩

theorem record_ok_iff : (registry.record id).1 = .ok symbol ↔ registry.Accepts id symbol := by
  rcases record_cases registry id with ⟨name, haccepts, heq⟩ | ⟨cause, hrefused, heq⟩
  · rw [heq, Except.ok.injEq]
    constructor
    · rintro rfl
      exact haccepts
    · intro h
      simpa [haccepts.named] using h.named
  · simp [heq, hrefused symbol]

theorem record_refused {cause : CompileError} (h : (registry.record id).1 = .error cause) :
    (registry.record id).2 = registry := by
  rcases record_cases registry id with ⟨symbol, _, heq⟩ | ⟨_, _, heq⟩
  · simp [heq] at h
  · rw [heq]

/-! ## Both sides of the registry -/

/-- The two sides are inverse to each other, and hold functions under their own symbols,
none of which is reserved. -/
structure Consistent (registry : Registry) : Prop where
  inverse : ∀ symbol id,
    registry.owners.find? symbol = some id ↔ registry.symbol? id = some symbol
  named : ∀ symbol id,
    registry.owners.find? symbol = some id → registry.symbolOf id = .ok symbol
  unreserved : ∀ symbol id,
    registry.owners.find? symbol = some id → Name.isReserved symbol = false

theorem Consistent.enter (h : registry.Consistent) (haccepts : registry.Accepts id symbol) :
    (registry.enter symbol id).Consistent := by
  constructor
  · intro other function
    rw [owner_enter, symbol?_enter]
    by_cases hsymbol : symbol = other <;> by_cases hid : id = function
    · simp [hsymbol, hid]
    · -- the symbol was vacant, so nothing else has it
      have hnone : registry.symbol? function ≠ some symbol := by
        intro hother
        rw [← h.inverse, haccepts.vacant] at hother
        simp at hother
      subst hsymbol
      simp [hid, hnone]
    · -- the function had no symbol, as it could only have had this one
      have hnone : registry.owners.find? other ≠ some id := by
        intro hother
        have hnamed := h.named other id hother
        rw [haccepts.named, Except.ok.injEq] at hnamed
        exact hsymbol hnamed
      subst hid
      simp [hsymbol, hnone]
    · rw [if_neg hsymbol, if_neg hid]
      exact h.inverse other function
  · intro other function hother
    rw [owner_enter] at hother
    split at hother
    · rename_i hsymbol
      cases hother
      exact hsymbol ▸ haccepts.named
    · exact h.named other function hother
  · intro other function hother
    rw [owner_enter] at hother
    split at hother
    · rename_i hsymbol
      exact hsymbol ▸ haccepts.unreserved
    · exact h.unreserved other function hother

theorem Consistent.record (h : registry.Consistent) (id : FunctionId) :
    (registry.record id).2.Consistent := by
  rcases record_cases registry id with ⟨symbol, haccepts, heq⟩ | ⟨_, _, heq⟩
  · rw [heq]
    exact h.enter haccepts
  · rwa [heq]

theorem ofSettings_ok {settings : Settings} (h : ofSettings settings = .ok registry) :
    settings.check = .ok ()
      ∧ registry = { spelling := settings.spelling, delimiter := settings.delimiter } := by
  unfold ofSettings at h
  cases hcheck : settings.check with
  | error cause => simp [hcheck, bind, Except.bind] at h
  | ok _ =>
    simp only [hcheck, bind, Except.bind, pure, Except.pure, Except.ok.injEq] at h
    exact ⟨rfl, h.symm⟩

theorem consistent_ofSettings {settings : Settings} (h : ofSettings settings = .ok registry) :
    registry.Consistent := by
  obtain ⟨_, rfl⟩ := ofSettings_ok h
  constructor <;> simp [symbol?]

/-! ## A series of calls -/

/-- The registry after a series of calls, whatever their results. -/
def recordAll (registry : Registry) (ids : List FunctionId) : Registry :=
  ids.foldl (fun registry id => (registry.record id).2) registry

/-- One of the calls accepted the function. -/
def Recorded (registry : Registry) (ids : List FunctionId) (id : FunctionId) : Prop :=
  ∃ before later symbol, ids = before ++ id :: later
    ∧ ((registry.recordAll before).record id).1 = .ok symbol

theorem recordAll_concat (registry : Registry) (ids : List FunctionId) (id : FunctionId) :
    registry.recordAll (ids ++ [id]) = ((registry.recordAll ids).record id).2 := by
  simp [recordAll]

theorem Consistent.recordAll (h : registry.Consistent) (ids : List FunctionId) :
    (registry.recordAll ids).Consistent := by
  induction ids generalizing registry with
  | nil => exact h
  | cons id ids ih => exact ih (h.record id)

theorem spelling_delimiter_recordAll (registry : Registry) (ids : List FunctionId) :
    (registry.recordAll ids).spelling = registry.spelling
      ∧ (registry.recordAll ids).delimiter = registry.delimiter := by
  induction ids using List.reverseRecOn with
  | nil => exact ⟨rfl, rfl⟩
  | append_singleton ids id ih =>
    rw [recordAll_concat]
    rcases record_cases (registry.recordAll ids) id with ⟨_, _, heq⟩ | ⟨_, _, heq⟩
    all_goals simpa [heq] using ih

/-- The settings stay in force. -/
theorem recordAll_ofSettings {settings : Settings} {start : Registry}
    (hstart : ofSettings settings = .ok start) (ids : List FunctionId) :
    (start.recordAll ids).spelling = settings.spelling
      ∧ (start.recordAll ids).delimiter = settings.delimiter := by
  obtain ⟨_, rfl⟩ := ofSettings_ok hstart
  exact spelling_delimiter_recordAll _ ids

theorem recorded_concat {ids : List FunctionId} {last : FunctionId} :
    registry.Recorded (ids ++ [last]) id ↔ registry.Recorded ids id
      ∨ last = id ∧ ∃ symbol, (registry.recordAll ids).Accepts id symbol := by
  constructor
  · rintro ⟨before, later, symbol, heq, hok⟩
    rcases List.eq_nil_or_concat later with rfl | ⟨later, x, rfl⟩
    · obtain ⟨rfl, hlast⟩ := List.append_inj' heq rfl
      obtain rfl : last = id := by simpa using hlast
      exact .inr ⟨rfl, symbol, record_ok_iff.1 hok⟩
    · rw [List.concat_eq_append, ← List.cons_append, ← List.append_assoc] at heq
      exact .inl ⟨before, later, symbol, (List.append_inj' heq rfl).1, hok⟩
  · rintro (⟨before, later, symbol, rfl, hok⟩ | ⟨rfl, symbol, haccepts⟩)
    · exact ⟨before, later ++ [last], symbol, by simp, hok⟩
    · exact ⟨ids, [], symbol, rfl, record_ok_iff.2 haccepts⟩

/-- A function has a symbol if one of the calls accepted it. -/
theorem isSome_symbol?_recordAll (hempty : registry.symbols = []) (ids : List FunctionId)
    (id : FunctionId) :
    ((registry.recordAll ids).symbol? id).isSome ↔ registry.Recorded ids id := by
  induction ids using List.reverseRecOn with
  | nil => simp [recordAll, symbol?, hempty, Recorded]
  | append_singleton ids last ih =>
    rw [recordAll_concat, recorded_concat, ← ih]
    rcases record_cases (registry.recordAll ids) last with
      ⟨symbol, haccepts, heq⟩ | ⟨_, hrefused, heq⟩
    · rw [heq, symbol?_enter]
      by_cases hid : last = id
      · subst hid
        simp [show ∃ symbol, (registry.recordAll ids).Accepts last symbol from ⟨symbol, haccepts⟩]
      · simp [hid]
    · rw [heq]
      constructor
      · exact .inl
      · rintro (h | ⟨rfl, symbol, haccepts⟩)
        · exact h
        · exact absurd haccepts (hrefused symbol)

theorem resolve_eq_ok : registry.resolve id = .ok symbol ↔ registry.symbol? id = some symbol := by
  unfold resolve
  cases registry.symbol? id <;> simp

/-- In canonical spelling, the symbols at calls are those that are owned. -/
theorem resolveSymbol_canonical (h : registry.spelling = .canonical) {spelling : String}
    {call : ResolvedCall} :
    registry.resolveSymbol spelling = .ok call ↔
      registry.owners.find? spelling = some call.target
        ∧ call.symbol = spelling ∧ call.isAlias = false := by
  obtain ⟨written, target, isAlias⟩ := call
  unfold resolveSymbol
  cases howner : registry.owners.find? spelling with
  | some owner =>
    simp only [Except.ok.injEq, ResolvedCall.mk.injEq, Option.some.injEq]
    constructor
    · rintro ⟨rfl, rfl, rfl⟩
      exact ⟨rfl, rfl, rfl⟩
    · rintro ⟨rfl, rfl, rfl⟩
      exact ⟨rfl, rfl, rfl⟩
  | none =>
    rw [h]
    dsimp only
    split <;> simp

/-- What a registry tells about the calls that led to it from an empty one. -/
structure Exact (start : Registry) (ids : List FunctionId) (registry : Registry) : Prop
    extends registry.Consistent where
  /-- The next call succeeds for a function whose symbol is not reserved and not held. -/
  accepts : ∀ id symbol, (registry.record id).1 = .ok symbol ↔
    registry.symbolOf id = .ok symbol ∧ Name.isReserved symbol = false
      ∧ ∀ owner, registry.symbol? owner ≠ some symbol
  /-- A call that fails leaves the registry as it was. -/
  refuses : ∀ id cause, (registry.record id).1 = .error cause → (registry.record id).2 = registry
  /-- The functions that were accepted are found under their symbols, and no others. -/
  resolves : ∀ id symbol, registry.resolve id = .ok symbol ↔
    registry.symbolOf id = .ok symbol ∧ start.Recorded ids id
  /-- In canonical spelling a call may be written with a recorded symbol, and no other. -/
  calls : registry.spelling = .canonical → ∀ spelling call,
    registry.resolveSymbol spelling = .ok call ↔
      registry.owners.find? spelling = some call.target
        ∧ call.symbol = spelling ∧ call.isAlias = false

/-- The registry is an exact bijection after any series of calls, with valid settings. -/
theorem exact_recordAll {settings : Settings} {start : Registry}
    (hstart : ofSettings settings = .ok start) (ids : List FunctionId) :
    (start.recordAll ids).spelling = settings.spelling
      ∧ start.Exact ids (start.recordAll ids) := by
  have hconsistent := (consistent_ofSettings hstart).recordAll ids
  obtain ⟨_, rfl⟩ := ofSettings_ok hstart
  refine ⟨(spelling_delimiter_recordAll _ ids).1, hconsistent, ?_, fun _ _ => record_refused,
    ?_, ?_⟩
  · intro id symbol
    rw [record_ok_iff]
    constructor
    · intro h
      refine ⟨h.named, h.unreserved, fun owner howner => ?_⟩
      rw [← hconsistent.inverse, h.vacant] at howner
      simp at howner
    · rintro ⟨hnamed, hunreserved, hvacant⟩
      refine ⟨hnamed, hunreserved, Option.eq_none_iff_forall_ne_some.2 fun owner howner => ?_⟩
      exact hvacant owner ((hconsistent.inverse symbol owner).1 howner)
  · intro id symbol
    rw [resolve_eq_ok, ← isSome_symbol?_recordAll rfl]
    constructor
    · intro h
      exact ⟨hconsistent.named symbol id ((hconsistent.inverse symbol id).2 h), by simp [h]⟩
    · rintro ⟨hnamed, hsome⟩
      obtain ⟨other, hother⟩ := Option.isSome_iff_exists.1 hsome
      have hsame := hconsistent.named other id ((hconsistent.inverse other id).2 hother)
      rw [hnamed, Except.ok.injEq] at hsame
      rw [hother, hsame]
  · intro hcanonical spelling call
    exact resolveSymbol_canonical hcanonical

end Registry

/-- Two functions that share a symbol, the first of them twice, one with a reserved symbol
and one without a module. -/
def Sample.clashes : List FunctionId :=
  [⟨"/p/zvdb-minz", "m", "f", []⟩, ⟨"/p/zvdb_minz", "m", "f", []⟩,
    ⟨"/p/zvdb-minz", "m", "f", []⟩, ⟨"", "print", "u8", []⟩, ⟨"/p", "", "f", []⟩]

/-- Only the first call of the sample is accepted. -/
theorem Registry.exact_recordAll_clashes :
    ∃ start, ofSettings {} = .ok start
      ∧ (start.recordAll Sample.clashes).symbols
        = [(⟨"/p/zvdb-minz", "m", "f", []⟩, "_p_zvdb_minz_m_f")]
      ∧ (start.recordAll Sample.clashes).spelling = .canonical
      ∧ start.Exact Sample.clashes (start.recordAll Sample.clashes) := by
  have hstart : ofSettings {} = .ok { spelling := .canonical, delimiter := '$' } := rfl
  exact ⟨_, hstart, by decide +kernel, exact_recordAll hstart Sample.clashes⟩

end ScalarC
