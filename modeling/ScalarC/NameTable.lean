/-!
# Tables keyed by names

A finite map from names to values, kept as a list in increasing order of the
names. The order makes the list of entries canonical: a table is determined by
what it finds.
-/

namespace ScalarC

/-- A finite map from names, its entries in increasing order. -/
structure NameTable (α : Type) where
  entries : List (String × α)
  ordered : entries.Pairwise fun a b => a.1 < b.1
deriving DecidableEq, Repr

namespace NameTable

variable {α : Type}

def empty : NameTable α := ⟨[], .nil⟩

instance : EmptyCollection (NameTable α) := ⟨empty⟩

/-- Puts an entry in its place, replacing one of the same name. -/
def insertEntry (key : String) (value : α) : List (String × α) → List (String × α)
  | [] => [(key, value)]
  | e :: rest =>
    if key < e.1 then (key, value) :: e :: rest
    else if key = e.1 then (key, value) :: rest
    else e :: insertEntry key value rest

theorem mem_insertEntry {key : String} {value : α} {entries : List (String × α)}
    {e : String × α} (h : e ∈ insertEntry key value entries) :
    e = (key, value) ∨ e ∈ entries := by
  induction entries with
  | nil => simpa [insertEntry] using h
  | cons d rest ih =>
    simp only [insertEntry] at h
    split at h
    · simpa using h
    · split at h
      · rcases List.mem_cons.1 h with h | h
        · exact .inl h
        · exact .inr (List.mem_cons_of_mem _ h)
      · rcases List.mem_cons.1 h with h | h
        · exact .inr (h ▸ List.mem_cons_self)
        · exact (ih h).imp id (List.mem_cons_of_mem _)

theorem ordered_insertEntry (key : String) (value : α) {entries : List (String × α)}
    (h : entries.Pairwise fun a b => a.1 < b.1) :
    (insertEntry key value entries).Pairwise fun a b => a.1 < b.1 := by
  induction entries with
  | nil => simp [insertEntry]
  | cons d rest ih =>
    obtain ⟨first, tail⟩ := List.pairwise_cons.1 h
    simp only [insertEntry]
    split
    · rename_i lt
      refine List.pairwise_cons.2 ⟨fun e he => ?_, h⟩
      rcases List.mem_cons.1 he with rfl | he
      · exact lt
      · exact String.lt_trans lt (first e he)
    · rename_i nlt
      split
      · rename_i eq
        exact List.pairwise_cons.2 ⟨fun e he => eq ▸ first e he, tail⟩
      · rename_i ne
        refine List.pairwise_cons.2 ⟨fun e he => ?_, ih tail⟩
        rcases mem_insertEntry he with rfl | he
        · exact Std.lt_of_le_of_ne (String.not_lt.1 nlt) (Ne.symm ne)
        · exact first e he

def insert (table : NameTable α) (key : String) (value : α) : NameTable α :=
  ⟨insertEntry key value table.entries, ordered_insertEntry key value table.ordered⟩

def find? (table : NameTable α) (key : String) : Option α :=
  (table.entries.find? (·.1 == key)).map (·.2)

@[simp] theorem find?_empty (key : String) : (empty : NameTable α).find? key = none := rfl

theorem find?_insertEntry (key : String) (value : α) (entries : List (String × α))
    (other : String) :
    ((insertEntry key value entries).find? (·.1 == other)).map (·.2)
      = if key = other then some value else (entries.find? (·.1 == other)).map (·.2) := by
  induction entries with
  | nil => by_cases h : key = other <;> simp [insertEntry, h]
  | cons d rest ih =>
    simp only [insertEntry]
    split
    · by_cases h : key = other <;> simp [List.find?_cons, h]
    · split
      · rename_i eq
        by_cases h : d.1 = other <;> simp [eq, h]
      · rename_i ne
        by_cases h : d.1 = other
        · simp [h, h ▸ ne]
        · simpa [List.find?_cons, h] using ih

/-- The inserted name finds its value, and any other name what it found before. -/
theorem find?_insert (table : NameTable α) (key : String) (value : α) (other : String) :
    (table.insert key value).find? other
      = if key = other then some value else table.find? other :=
  find?_insertEntry key value table.entries other

def contains (table : NameTable α) (key : String) : Bool :=
  (table.find? key).isSome

def size (table : NameTable α) : Nat := table.entries.length

end NameTable

end ScalarC
