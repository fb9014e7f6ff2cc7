import Mathlib.Data.List.Basic

/-!
# Histories

A history is a list of observations with the newest first.  `rewind f h` goes back to the
latest observation that `f` reads and returns what `f` reads of it, together with the
history as it was before that observation.  `Each F h` says that every observation of `h`
stands in the relation `F` to the history before it.
-/

universe u v

namespace ContextVM.Lib

variable {α : Type u} {β : Type v}

/-- The latest observation that `f` reads, and the history before it. -/
def rewind (f : α → Option β) : List α → Option (β × List α)
  | [] => none
  | a :: h =>
    match f a with
    | some b => some (b, h)
    | none => rewind f h

@[simp] theorem rewind_nil (f : α → Option β) : rewind f [] = none := rfl

theorem rewind_cons_of_some {f : α → Option β} {a : α} {b : β} (ha : f a = some b)
    (h : List α) : rewind f (a :: h) = some (b, h) := by simp [rewind, ha]

theorem rewind_cons_of_none {f : α → Option β} {a : α} (ha : f a = none) (h : List α) :
    rewind f (a :: h) = rewind f h := by simp [rewind, ha]

/-- What `rewind` returns is an observation of the history, with nothing newer that `f`
reads. -/
theorem rewind_eq_some {f : α → Option β} {b : β} {h h₀ : List α}
    (hr : rewind f h = some (b, h₀)) :
    ∃ a newer, f a = some b ∧ h = newer ++ a :: h₀ ∧ ∀ x ∈ newer, f x = none := by
  induction h with
  | nil => simp at hr
  | cons a h ih =>
      cases ha : f a with
      | some b' =>
          rw [rewind_cons_of_some ha] at hr
          cases hr
          exact ⟨a, [], ha, rfl, by simp⟩
      | none =>
          rw [rewind_cons_of_none ha] at hr
          obtain ⟨x, newer, hx, rfl, hnone⟩ := ih hr
          exact ⟨x, a :: newer, hx, rfl, by simpa [ha] using hnone⟩

theorem rewind_suffix {f : α → Option β} {b : β} {h h₀ : List α}
    (hr : rewind f h = some (b, h₀)) : h₀ <:+ h := by
  obtain ⟨a, newer, -, rfl, -⟩ := rewind_eq_some hr
  exact (List.suffix_cons a h₀).trans (List.suffix_append newer _)

/-- The latest observation that `f` reads, without the history before it. -/
def latest (f : α → Option β) (h : List α) : Option β := (rewind f h).map Prod.fst

@[simp] theorem latest_nil (f : α → Option β) : latest f [] = none := rfl

theorem latest_cons_of_some {f : α → Option β} {a : α} {b : β} (ha : f a = some b)
    (h : List α) : latest f (a :: h) = some b := by simp [latest, rewind_cons_of_some ha]

theorem latest_cons_of_none {f : α → Option β} {a : α} (ha : f a = none) (h : List α) :
    latest f (a :: h) = latest f h := by simp [latest, rewind_cons_of_none ha]

/-- What `f` does not read does not change what is latest. -/
theorem latest_append_of_none {f : α → Option β} {newer h : List α}
    (hnone : ∀ a ∈ newer, f a = none) : latest f (newer ++ h) = latest f h := by
  induction newer with
  | nil => rfl
  | cons a newer ih =>
      rw [List.cons_append, latest_cons_of_none (hnone a List.mem_cons_self)]
      exact ih fun x hx ↦ hnone x (List.mem_cons_of_mem _ hx)

/-! ## Relations between an observation and what precedes it -/

/-- Every observation is related by `F` to the history before it. -/
def Each (F : α → List α → Prop) : List α → Prop
  | [] => True
  | a :: h => F a h ∧ Each F h

@[simp] theorem each_nil (F : α → List α → Prop) : Each F [] := trivial

@[simp] theorem each_cons (F : α → List α → Prop) (a : α) (h : List α) :
    Each F (a :: h) ↔ F a h ∧ Each F h := Iff.rfl

theorem Each.of_append {F : α → List α → Prop} {newer h : List α} (hE : Each F (newer ++ h)) :
    Each F h := by
  induction newer with
  | nil => exact hE
  | cons _ _ ih => exact ih hE.2

/-- Observations that satisfy `F` whatever precedes them. -/
theorem Each.append_of_forall {F : α → List α → Prop} {newer h : List α} (hE : Each F h)
    (hF : ∀ a ∈ newer, ∀ h, F a h) : Each F (newer ++ h) := by
  induction newer with
  | nil => exact hE
  | cons a newer ih =>
      exact ⟨hF a List.mem_cons_self _, ih fun x hx ↦ hF x (List.mem_cons_of_mem _ hx)⟩

/-- `Each` read at one observation. -/
theorem Each.at {F : α → List α → Prop} {newer h : List α} {a : α}
    (hE : Each F (newer ++ a :: h)) : F a h := (Each.of_append hE).1

/-- `Each` read at the observation `rewind` goes back to. -/
theorem Each.rewind {F : α → List α → Prop} {f : α → Option β} {b : β} {h h₀ : List α}
    (hE : Each F h) (hr : rewind f h = some (b, h₀)) : ∃ a, f a = some b ∧ F a h₀ := by
  obtain ⟨a, newer, ha, rfl, -⟩ := rewind_eq_some hr
  exact ⟨a, ha, hE.at⟩

end ContextVM.Lib
