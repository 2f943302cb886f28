import ScalarC.Name.Reserved
import ScalarC.Proofs.Name.Symbol

/-!
# Names of string constants

A string constant is named after its function and its number: `<symbol>_str<index>`. The
last underscore separates the two, so different constants have different names. A name of
this form ends with a digit, behind letters that no reserved name has there.
-/

namespace ScalarC

namespace Name

theorem toList_ofString (symbol : String) (index : Nat) :
    (ofString symbol index).toList
      = symbol.toList ++ '_' :: ("str".toList ++ Nat.toDigits 10 index) := by
  simp [ofString]

theorem underscore_notMem_index (index : Nat) :
    '_' ∉ "str".toList ++ Nat.toDigits 10 index := by
  intro hmem
  rcases List.mem_append.1 hmem with hmem | hmem
  · exact absurd hmem (by decide)
  · have hdigit := Nat.isDigit_of_mem_toDigits (by decide) (by decide) hmem
    exact absurd hdigit (by decide)

/-- The name of a string constant determines its function and its number. -/
theorem ofString_inj {symbol symbol' : String} {index index' : Nat} :
    ofString symbol index = ofString symbol' index' ↔ symbol = symbol' ∧ index = index' := by
  constructor
  · intro h
    have hchars := congrArg String.toList h
    rw [toList_ofString, toList_ofString] at hchars
    obtain ⟨hsymbol, hindex⟩ := append_cons_inj_of_notMem (underscore_notMem_index index)
      (underscore_notMem_index index') hchars
    have hnumber := congrArg (Nat.ofDigitChars 10 · 0) (List.append_cancel_left hindex)
    exact ⟨String.toList_injective hsymbol, by simpa using hnumber⟩
  · rintro ⟨rfl, rfl⟩
    rfl

/-! ## Reserved names -/

/-- The reserved names that are listed one by one. -/
def listed : List String :=
  "main" :: "String" :: stdio ++ Scalar.all.map Scalar.name
    ++ (Scalar.all.filter Scalar.isFixedPoint).map Scalar.shiftName ++ Routine.all.map Routine.name

/-- A reserved name is listed, or has a form that `<stdint.h>` uses. -/
theorem isReserved_iff {name : String} : isReserved name = true ↔
    name ∈ listed ∨ isStdintType name = true ∨ isStdintLimit name = true := by
  simp only [isReserved, listed, Bool.or_eq_true, beq_iff_eq, List.any_eq_true,
    List.contains_iff_mem, List.cons_append, List.mem_cons, List.mem_append, List.mem_map]
  grind

/-- A reserved name is listed, or has one of the endings of `<stdint.h>`. -/
theorem listed_or_endsWith {name : String} (h : isReserved name = true) :
    name ∈ listed ∨ ∃ tail ∈ ["_t", "_MAX", "_MIN", "_C"], endsWith tail name = true := by
  rcases isReserved_iff.1 h with h | h | h
  · exact .inl h
  · simp only [isStdintType, Bool.and_eq_true] at h
    exact .inr ⟨"_t", by simp, h.2⟩
  · simp only [isStdintLimit, Bool.and_eq_true, List.any_eq_true] at h
    obtain ⟨_, tail, htail, hends⟩ := h
    exact .inr ⟨tail, List.mem_cons_of_mem _ htail, hends⟩

/-- No name of a string constant is reserved. -/
theorem isReserved_ofString (symbol : String) (index : Nat) :
    isReserved (ofString symbol index) = false := by
  have hne : Nat.toDigits 10 index ≠ [] := List.ne_nil_of_length_pos Nat.length_toDigits_pos
  have hdigits : ∀ c ∈ Nat.toDigits 10 index, c.isDigit :=
    fun c hc => Nat.isDigit_of_mem_toDigits (by decide) (by decide) hc
  have hchars := toList_ofString symbol index
  by_contra hreserved
  rcases listed_or_endsWith (eq_true_of_ne_false hreserved) with hlisted | ⟨tail, htail, hends⟩
  · -- no listed name has a digit behind `_str`
    have hall : ∀ name ∈ listed, ∀ tail ∈ name.toList.tails,
        "_str".toList.isPrefixOf tail → (tail.drop 4).head?.any Char.isDigit = false := by
      decide +kernel
    have hsuffix : '_' :: ("str".toList ++ Nat.toDigits 10 index)
        ∈ (ofString symbol index).toList.tails := (List.mem_tails _ _).2 ⟨_, hchars.symm⟩
    have hnone := hall _ hlisted _ hsuffix (by simp)
    cases hdigit : Nat.toDigits 10 index with
    | nil => exact hne hdigit
    | cons c rest => simp [hdigit, hdigits c (by simp [hdigit])] at hnone
  · -- the endings are letters
    have hall : ∀ tail ∈ ["_t", "_MAX", "_MIN", "_C"],
        tail.toList.getLast?.any (!·.isDigit) = true := by decide
    obtain ⟨last, hlast, hletter⟩ := (Option.any_eq_true _ _).1 (hall tail htail)
    have hsame : tail.toList.getLast? = (Nat.toDigits 10 index).getLast? := by
      obtain ⟨before, hbefore⟩ := List.isSuffixOf_iff_suffix.1 hends
      have hboth := congrArg List.getLast? (hbefore.trans hchars)
      rw [← List.cons_append, ← List.append_assoc, List.getLast?_append_of_ne_nil _ hne,
        List.getLast?_append_of_ne_nil _ (List.ne_nil_of_mem (List.mem_of_getLast? hlast))] at hboth
      exact hboth
    rw [hsame] at hlast
    simp [hdigits last (List.mem_of_getLast? hlast)] at hletter

end Name

end ScalarC
