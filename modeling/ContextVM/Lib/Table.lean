import Mathlib.Data.List.AList

/-!
# Finite maps

The finite maps of the model are Mathlib's association lists with distinct keys, at a
constant value type.  This file adds the operations of a hash map that `AList` lacks,
`retain` and `eraseAll`, each described by what a lookup returns afterwards.
-/

universe u v

namespace ContextVM.Lib

/-- A finite map from `κ` to `α`. -/
abbrev Table (κ : Type u) (α : Type v) : Type (max u v) := AList fun _ : κ ↦ α

namespace Table

variable {κ : Type u} {α : Type v} [DecidableEq κ]

theorem lookup_insert_eq (t : Table κ α) (k k' : κ) (a : α) :
    (AList.insert k a t).lookup k' = if k' = k then some a else t.lookup k' := by
  split
  · next h => subst h; exact AList.lookup_insert t
  · next h => exact AList.lookup_insert_ne h

theorem lookup_erase_eq (t : Table κ α) (k k' : κ) :
    (AList.erase k t).lookup k' = if k' = k then none else t.lookup k' := by
  split
  · next h => subst h; exact AList.lookup_erase k' t
  · next h => exact AList.lookup_erase_ne h

theorem lookup_erase_eq_some {t : Table κ α} {k k' : κ} {a : α} :
    (AList.erase k t).lookup k' = some a ↔ k' ≠ k ∧ t.lookup k' = some a := by
  rw [lookup_erase_eq, Option.ite_none_left_eq_some]

/-- Keep the entries that satisfy `p`. -/
def retain (p : κ → α → Bool) (t : Table κ α) : Table κ α :=
  ⟨t.entries.filter fun e ↦ p e.1 e.2, t.nodupKeys.sublist List.filter_sublist⟩

theorem lookup_retain_eq_some {p : κ → α → Bool} {t : Table κ α} {k : κ} {a : α} :
    (retain p t).lookup k = some a ↔ t.lookup k = some a ∧ p k a = true := by
  simp only [← Option.mem_def, AList.mem_lookup_iff, retain, List.mem_filter]

/-- Delete all the keys of a list. -/
def eraseAll (ks : List κ) (t : Table κ α) : Table κ α :=
  ks.foldl (fun t k ↦ AList.erase k t) t

theorem lookup_eraseAll (ks : List κ) (t : Table κ α) (k : κ) :
    (eraseAll ks t).lookup k = if k ∈ ks then none else t.lookup k := by
  induction ks generalizing t with
  | nil => simp [eraseAll]
  | cons k' ks ih =>
      show (eraseAll ks (AList.erase k' t)).lookup k = _
      rw [ih, lookup_erase_eq]
      by_cases h : k = k' <;> by_cases h' : k ∈ ks <;> simp [h, h']

theorem lookup_eraseAll_eq_some {ks : List κ} {t : Table κ α} {k : κ} {a : α} :
    (eraseAll ks t).lookup k = some a ↔ k ∉ ks ∧ t.lookup k = some a := by
  rw [lookup_eraseAll, Option.ite_none_left_eq_some]

end Table

end ContextVM.Lib
