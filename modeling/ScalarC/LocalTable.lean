import ScalarC.Name.Spelling
import ScalarC.NameTable

/-!
# Local slots and definite assignment

The parameters and locals of one function, in order of declaration, with an index
that finds them by name, and the slots that are assigned on every path to the
current point. Reading any other slot is an error.
-/

namespace ScalarC

/-- A parameter or local. -/
structure LocalSlot where
  name : String
  ty : Scalar
  isParam : Bool
  /-- Some operation loads the slot. -/
  read : Bool := false
deriving DecidableEq, Repr

/-- Slot numbers in increasing order. -/
abbrev SlotSet := List Nat

namespace SlotSet

def insert (slot : Nat) : SlotSet → SlotSet
  | [] => [slot]
  | s :: rest =>
    if slot < s then slot :: s :: rest
    else if slot = s then s :: rest
    else s :: insert slot rest

@[simp] theorem mem_insert {slot other : Nat} {slots : SlotSet} :
    other ∈ insert slot slots ↔ other = slot ∨ other ∈ slots := by
  induction slots with
  | nil => simp [insert]
  | cons s rest ih =>
    simp only [insert]
    split
    · simp
    · split
      · rename_i eq
        simp [eq]
      · simp only [List.mem_cons, ih]
        exact or_left_comm

def erase (slot : Nat) (slots : SlotSet) : SlotSet :=
  slots.filter (· != slot)

@[simp] theorem mem_erase {slot other : Nat} {slots : SlotSet} :
    other ∈ erase slot slots ↔ other ∈ slots ∧ other ≠ slot := by
  simp [erase]

/-- The slots in both sets. -/
def inter (a b : SlotSet) : SlotSet :=
  a.filter (b.contains ·)

@[simp] theorem mem_inter {slot : Nat} {a b : SlotSet} :
    slot ∈ inter a b ↔ slot ∈ a ∧ slot ∈ b := by
  simp [inter]

end SlotSet

structure LocalTable where
  /-- The function, as messages call it. -/
  function : String
  slots : List LocalSlot := []
  /-- The numbers of the slots, by name. -/
  index : NameTable Nat := .empty
  /-- The slots assigned on every path to the current point. -/
  assigned : SlotSet := []
deriving DecidableEq, Repr

namespace LocalTable

/-- The slot of a name, with its number. -/
def slot? (table : LocalTable) (name : String) : Option (LocalSlot × Nat) := do
  let number ← table.index.find? name
  let found ← table.slots[number]?
  return (found, number)

/-- The slot of a name that has to be declared. -/
def slot (table : LocalTable) (name : String) : Except CompileError (LocalSlot × Nat) :=
  match table.slot? name with
  | some found => .ok found
  | none => .error (.unknownLocal table.function name)

def typeOf (table : LocalTable) (name : String) : Except CompileError Scalar := do
  let (found, _) ← table.slot name
  return found.ty

end LocalTable

/-- A step on a local table. The table after the step comes with the result, also when the
step is refused. -/
abbrev LocalStep := EStateM CompileError LocalTable

namespace LocalStep

/-- Looks something up. -/
def look {α : Type} (f : LocalTable → Except CompileError α) : LocalStep α := do
  match f (← get) with
  | .ok a => return a
  | .error cause => throw cause

/-- Adds a slot for a new name and gives its number. -/
def addSlot (name : String) (ty : Scalar) (isParam : Bool) : LocalStep Nat := do
  let table ← get
  if !Name.isIdentifier name then
    throw (.invalidIdentifier name)
  else if table.index.contains name then
    throw (.duplicateLocal table.function name)
  else
    let number := table.slots.length
    modify fun table => { table with
      slots := table.slots ++ [{ name, ty, isParam }]
      index := table.index.insert name number }
    return number

/-- Changes which slots are assigned. -/
def reassign (f : SlotSet → SlotSet) : LocalStep Unit :=
  modify fun table => { table with assigned := f table.assigned }

/-- Adds a parameter, which is assigned from the start. -/
def declareParam (name : String) (ty : Scalar) : LocalStep Unit := do
  let slot ← addSlot name ty true
  reassign (SlotSet.insert slot)

/-- Declares a local. A local of the same name and type is taken over, and is
unassigned again; a parameter or another type is an error. -/
def declareLocal (name : String) (ty : Scalar) : LocalStep Unit := do
  let table ← get
  match table.slot? name with
  | none =>
    let _ ← addSlot name ty false
  | some (existing, slot) =>
    if existing.isParam || existing.ty != ty then
      throw (.duplicateLocal table.function name)
    else
      reassign (SlotSet.erase slot)

def typeOf (name : String) : LocalStep Scalar := look (·.typeOf name)

/-- Records a read of an assigned local. -/
def read (name : String) : LocalStep Scalar := do
  let (found, slot) ← look (·.slot name)
  let table ← get
  if !table.assigned.contains slot then
    throw (.unassignedLocal table.function name)
  else
    modify fun table =>
      { table with slots := table.slots.modify slot fun s => { s with read := true } }
    return found.ty

/-- Records an assignment. -/
def assign (name : String) : LocalStep Scalar := do
  let (found, slot) ← look (·.slot name)
  reassign (SlotSet.insert slot)
  return found.ty

/-- The slots assigned at this point. -/
def snapshot : LocalStep SlotSet := return (← get).assigned

/-- Goes back to an earlier set of assigned slots; the slots stay. -/
def restore (assigned : SlotSet) : LocalStep Unit := reassign fun _ => assigned

/-- The result of a step, for callers that stop at the first step that is refused. -/
def outcome {α : Type} (step : LocalStep α) (table : LocalTable) :
    Except CompileError (α × LocalTable) :=
  match step table with
  | .ok a next => .ok (a, next)
  | .error cause _ => .error cause

end LocalStep

namespace LocalTable

def declareParam (table : LocalTable) (name : String) (ty : Scalar) :
    Except CompileError LocalTable :=
  ((LocalStep.declareParam name ty).outcome table).map (·.2)

def declareLocal (table : LocalTable) (name : String) (ty : Scalar) :
    Except CompileError LocalTable :=
  ((LocalStep.declareLocal name ty).outcome table).map (·.2)

def read (table : LocalTable) (name : String) : Except CompileError (Scalar × LocalTable) :=
  (LocalStep.read name).outcome table

def assign (table : LocalTable) (name : String) : Except CompileError (Scalar × LocalTable) :=
  (LocalStep.assign name).outcome table

def restore (table : LocalTable) (assigned : SlotSet) : LocalTable :=
  { table with assigned := assigned }

end LocalTable

end ScalarC
