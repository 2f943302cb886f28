import ScalarC.Proofs.Lowering.Steps

/-!
# Register tables

Handing out registers adds rows at the end, and marking one changes a flag of its
row. So a table lists its registers in order, and a type that is found for a
register stays the same for good.
-/

namespace ScalarC

namespace RegisterTable

variable {t t' : RegisterTable} {r : Register} {ty : Scalar}

/-- The types of the registers, in order. -/
def types (t : RegisterTable) : List Scalar := t.rows.map (·.ty)

/-- The rows hold the registers one, two, and so on. -/
def Numbered (t : RegisterTable) : Prop :=
  t.rows.map (·.register.number) = List.range' 1 t.size

@[simp] theorem length_types (t : RegisterTable) : t.types.length = t.size := by
  simp [types, size]

@[simp] theorem types_addWritten (t : RegisterTable) (ty : Scalar) :
    (t.addWritten ty).types = t.types ++ [ty] := by
  simp [types, addWritten]

@[simp] theorem types_allocate (t : RegisterTable) (ty : Scalar) :
    (t.allocate ty).2.types = t.types ++ [ty] := by
  simp [types, allocate]

@[simp] theorem size_addWritten (t : RegisterTable) (ty : Scalar) :
    (t.addWritten ty).size = t.size + 1 := by
  simp [addWritten, size]

theorem numbered_addWritten (h : t.Numbered) (ty : Scalar) : (t.addWritten ty).Numbered := by
  have hsize := size_addWritten t ty
  simp only [Numbered] at h ⊢
  rw [hsize, List.range'_concat, ← h]
  simp [addWritten, Nat.add_comm]

theorem numbered_allocate (h : t.Numbered) (ty : Scalar) : (t.allocate ty).2.Numbered := by
  have hsize := size_allocate t ty
  simp only [Numbered] at h ⊢
  rw [hsize, List.range'_concat, ← h]
  simp [allocate, Nat.add_comm]

/-- Marking a register as read changes a flag of one row. -/
theorem markRead?_eq_some (h : t.markRead? r = some t') :
    ∃ n, r.number = n + 1 ∧ n < t.size
      ∧ t' = { rows := t.rows.modify n fun row => { row with read := true } } := by
  unfold markRead? update? at h
  split at h
  · simp at h
  · rename_i n hn
    split at h
    · rename_i hlt
      exact ⟨n, hn, hlt, by simpa using h.symm⟩
    · simp at h

theorem types_markRead? (h : t.markRead? r = some t') : t'.types = t.types := by
  obtain ⟨n, _, _, rfl⟩ := markRead?_eq_some h
  simp only [types]
  rw [map_modify_eq]
  intro row
  rfl

theorem numbered_markRead? (h : t.markRead? r = some t') (hn : t.Numbered) : t'.Numbered := by
  obtain ⟨n, _, _, rfl⟩ := markRead?_eq_some h
  simp only [Numbered, size, List.length_modify] at hn ⊢
  rw [← hn, map_modify_eq]
  intro row
  rfl

/-- The type of a register, by its place in the order. -/
theorem typeOf?_succ (t : RegisterTable) (n : Nat) : t.typeOf? ⟨n + 1⟩ = t.types[n]? := by
  simp [typeOf?, row?, types]

theorem typeOf?_eq_some_iff :
    t.typeOf? r = some ty ↔ ∃ n, r = ⟨n + 1⟩ ∧ t.types[n]? = some ty := by
  obtain ⟨_ | n⟩ := r
  · simp [typeOf?, row?]
  · simp [typeOf?_succ]

/-- A type that is found stays found when registers are added. -/
theorem typeOf?_of_prefix (h : t.types <+: t'.types) (hty : t.typeOf? r = some ty) :
    t'.typeOf? r = some ty := by
  obtain ⟨n, rfl, hn⟩ := typeOf?_eq_some_iff.1 hty
  obtain ⟨added, heq⟩ := h
  obtain ⟨hlt, _⟩ := List.getElem?_eq_some_iff.1 hn
  rw [typeOf?_succ, ← heq, List.getElem?_append_left hlt, hn]

/-- The register has a row. -/
def Has (t : RegisterTable) (r : Register) : Prop :=
  0 < r.number ∧ r.number ≤ t.size

theorem Has.of_le (h : t.Has r) (hle : t.size ≤ t'.size) : t'.Has r :=
  ⟨h.1, Nat.le_trans h.2 hle⟩

theorem Has.exists_typeOf? (h : t.Has r) : ∃ ty, t.typeOf? r = some ty := by
  obtain ⟨hpos, hle⟩ := h
  obtain ⟨_ | n⟩ := r
  · simp at hpos
  · rw [typeOf?_succ]
    exact ⟨_, List.getElem?_eq_getElem (by simpa using Nat.lt_of_succ_le hle)⟩

theorem Has.exists_markRead? (h : t.Has r) : ∃ t', t.markRead? r = some t' := by
  obtain ⟨hpos, hle⟩ := h
  obtain ⟨_ | n⟩ := r
  · simp at hpos
  · exact ⟨_, if_pos (Nat.lt_of_succ_le hle)⟩

theorem find?_numbered {rows : List RegisterRow} {first : Nat}
    (h : rows.map (·.register.number) = List.range' first rows.length) (n : Nat) :
    rows.find? (·.register == ⟨first + n⟩) = rows[n]? := by
  induction rows generalizing first n with
  | nil => simp
  | cons row rows ih =>
    simp only [List.map_cons, List.length_cons, List.range'_succ, List.cons.injEq] at h
    obtain ⟨hrow, hrows⟩ := h
    have heq : row.register = ⟨first⟩ := by rw [← hrow]
    cases n with
    | zero => simp [heq]
    | succ n =>
      have hne : (row.register == (⟨first + (n + 1)⟩ : Register)) = false := by
        simp [heq]
      rw [List.find?_cons, hne, show first + (n + 1) = first + 1 + n by omega, ih hrows n]
      simp

/-- In a numbered table, looking a register up among the rows finds its type. -/
theorem find?_register (h : t.Numbered) (r : Register) :
    (t.rows.find? (·.register == r)).map (·.ty) = t.typeOf? r := by
  obtain ⟨_ | n⟩ := r
  · have hnone : t.rows.find? (·.register == (⟨0⟩ : Register)) = none := by
      rw [List.find?_eq_none]
      intro row hrow heq
      have hmem : row.register.number ∈ List.range' 1 t.size :=
        h ▸ List.mem_map_of_mem hrow
      rw [beq_iff_eq.1 heq] at hmem
      simp at hmem
    simp [hnone, typeOf?, row?]
  · have hfind := find?_numbered h n
    rw [Nat.add_comm] at hfind
    simp [hfind, typeOf?, row?]

end RegisterTable

end ScalarC
