import Mathlib.Data.List.Basic
import Mathlib.Data.List.Infix

/-!
# Runs of a partial step function

A system is given by `step : σ → α → Option σ`: from a state, an action either leads to
one next state or is not enabled.  `run` performs a list of actions in order.

* `run_invariant` carries a property of states along a run, and `Reaches.induct` to every
  state that is reached;
* `Always step P s as` says that `P` holds of every state and action of the run at the
  moment the action is taken, and `run_invariant_of_always` carries a property that a step
  preserves only under `P`;
* `run_simulates` carries a relation between the states of two systems along a run of both, and
  `run_stutters` if the second one stands still now and then; `run_thins` names the actions by
  which it follows;
* `run_filter` deletes from a run the actions that change nothing.
-/

universe u v w x

namespace ContextVM.Lib

variable {σ : Type u} {α : Type v} (step : σ → α → Option σ)

/-- Perform the actions of a list in order. -/
def run : σ → List α → Option σ
  | s, [] => some s
  | s, a :: as => (step s a).bind fun s' ↦ run s' as

@[simp] theorem run_nil (s : σ) : run step s [] = some s := rfl

@[simp] theorem run_cons (s : σ) (a : α) (as : List α) :
    run step s (a :: as) = (step s a).bind fun s' ↦ run step s' as := rfl

theorem run_cons_eq_some {s s' : σ} {a : α} {as : List α} :
    run step s (a :: as) = some s' ↔ ∃ m, step s a = some m ∧ run step m as = some s' := by
  simp [Option.bind_eq_some_iff]

theorem run_append (s : σ) (as bs : List α) :
    run step s (as ++ bs) = (run step s as).bind fun s' ↦ run step s' bs := by
  induction as generalizing s with
  | nil => rfl
  | cons a as ih =>
      cases h : step s a with
      | none => simp [h]
      | some m => simp [h, ih]

theorem run_append_eq_some {s s' : σ} {as bs : List α} :
    run step s (as ++ bs) = some s' ↔ ∃ m, run step s as = some m ∧ run step m bs = some s' := by
  rw [run_append, Option.bind_eq_some_iff]

theorem run_concat_eq_some {s s' : σ} {as : List α} {a : α} :
    run step s (as ++ [a]) = some s' ↔ ∃ m, run step s as = some m ∧ step m a = some s' := by
  simp [run_append_eq_some]

/-- A property that every step preserves holds at the end of every run. -/
theorem run_invariant {I : σ → Prop} (hstep : ∀ s a s', I s → step s a = some s' → I s')
    {s s' : σ} {as : List α} (hI : I s) (hrun : run step s as = some s') : I s' := by
  induction as generalizing s with
  | nil => exact Option.some.inj hrun ▸ hI
  | cons a as ih =>
      obtain ⟨m, hm, hrest⟩ := (run_cons_eq_some step).1 hrun
      exact ih (hstep s a m hI hm) hrest

/-- Some run leads from `s₀` to `s`. -/
def Reaches (s₀ s : σ) : Prop := ∃ as, run step s₀ as = some s

theorem Reaches.refl (s : σ) : Reaches step s s := ⟨[], rfl⟩

theorem Reaches.tail {s₀ s s' : σ} {a : α} (h : Reaches step s₀ s) (hstep : step s a = some s') :
    Reaches step s₀ s' := by
  obtain ⟨as, has⟩ := h
  refine ⟨as ++ [a], (run_append_eq_some step).2 ⟨s, has, ?_⟩⟩
  exact (run_cons_eq_some step).2 ⟨s', hstep, rfl⟩

/-- What holds at the start and is kept by every step from a state that is reached holds of
every state that is reached. -/
theorem Reaches.induct {s₀ s : σ} (h : Reaches step s₀ s) (I : σ → Prop) (hinit : I s₀)
    (hstep : ∀ m a m', Reaches step s₀ m → I m → step m a = some m' → I m') : I s := by
  obtain ⟨as, has⟩ := h
  have hkeep : ∀ m a m', (Reaches step s₀ m ∧ I m) → step m a = some m' →
      Reaches step s₀ m' ∧ I m' := fun m a m' hm hm' ↦
    ⟨hm.1.tail step hm', hstep m a m' hm.1 hm.2 hm'⟩
  exact (run_invariant step hkeep ⟨.refl step s₀, hinit⟩ has).2

/-! ## Conditions on the steps of a run -/

/-- `P` holds of every state and action of the run, when the action is taken. -/
def Always (P : σ → α → Prop) : σ → List α → Prop
  | _, [] => True
  | s, a :: as => P s a ∧ ∀ s', step s a = some s' → Always P s' as

variable {step}

theorem Always.cons {P : σ → α → Prop} {s m : σ} {a : α} {as : List α} (hP : P s a)
    (hstep : step s a = some m) (h : Always step P m as) : Always step P s (a :: as) :=
  ⟨hP, fun _ hm ↦ Option.some.inj (hstep.symm.trans hm) ▸ h⟩

/-- The condition at the step that follows a prefix of the run. -/
theorem Always.at {P : σ → α → Prop} {s m : σ} {pre post : List α} {a : α}
    (h : Always step P s (pre ++ a :: post)) (hrun : run step s pre = some m) : P m a := by
  induction pre generalizing s with
  | nil => exact Option.some.inj hrun ▸ h.1
  | cons b pre ih =>
      obtain ⟨m', hm', hrest⟩ := (run_cons_eq_some step).1 hrun
      exact ih (h.2 m' hm') hrest

/-- A condition that holds after every prefix holds of the whole run. -/
theorem Always.of_forall {P : σ → α → Prop} {s : σ} {as : List α}
    (h : ∀ pre a post m, as = pre ++ a :: post → run step s pre = some m → P m a) :
    Always step P s as := by
  induction as generalizing s with
  | nil => trivial
  | cons a as ih =>
      refine ⟨h [] a as s rfl rfl, fun m hm ↦ ih fun pre b post m' has hrun ↦ ?_⟩
      apply h (a :: pre) b post m' (by rw [has]; rfl)
      exact (run_cons_eq_some step).2 ⟨m, hm, hrun⟩

/-- A condition on a run holds of its beginning. -/
theorem Always.left {P : σ → α → Prop} {s : σ} {pre post : List α}
    (h : Always step P s (pre ++ post)) : Always step P s pre := by
  refine Always.of_forall fun p a q m hpre hrun ↦ ?_
  rw [hpre, List.append_assoc] at h
  exact h.at hrun

theorem Always.append {P : σ → α → Prop} {s m : σ} {as bs : List α}
    (h : Always step P s as) (hrun : run step s as = some m) (hbs : Always step P m bs) :
    Always step P s (as ++ bs) := by
  induction as generalizing s with
  | nil =>
      cases hrun
      exact hbs
  | cons a as ih =>
      obtain ⟨m', hm', hrest⟩ := (run_cons_eq_some step).1 hrun
      exact Always.cons h.1 hm' (ih (h.2 m' hm') hrest)

theorem Always.concat {P : σ → α → Prop} {s m : σ} {as : List α} {a : α}
    (h : Always step P s as) (hrun : run step s as = some m) (hP : P m a) :
    Always step P s (as ++ [a]) :=
  h.append hrun ⟨hP, fun _ _ ↦ trivial⟩

/-- A condition on the actions alone. -/
theorem Always.of_mem {P : σ → α → Prop} {s : σ} {as : List α} (h : ∀ a ∈ as, ∀ m, P m a) :
    Always step P s as :=
  Always.of_forall fun _ a _ m has _ ↦ h a (by simp [has]) m

theorem Always.and {P Q : σ → α → Prop} {s : σ} {as : List α} (hP : Always step P s as)
    (hQ : Always step Q s as) : Always step (fun m a ↦ P m a ∧ Q m a) s as :=
  Always.of_forall fun _ _ _ _ has hrun ↦ ⟨(has ▸ hP).at hrun, (has ▸ hQ).at hrun⟩

theorem Always.imp {P Q : σ → α → Prop} (h : ∀ m a, P m a → Q m a) {s : σ} {as : List α}
    (hP : Always step P s as) : Always step Q s as :=
  Always.of_forall fun _ _ _ _ has hrun ↦ h _ _ ((has ▸ hP).at hrun)

/-- A property that a step preserves as long as `P` holds of it. -/
theorem run_invariant_of_always (I : σ → Prop) {P : σ → α → Prop}
    (hstep : ∀ s a s', I s → P s a → step s a = some s' → I s') {s s' : σ} {as : List α}
    (hI : I s) (hP : Always step P s as) (hrun : run step s as = some s') : I s' := by
  induction as generalizing s with
  | nil => exact Option.some.inj hrun ▸ hI
  | cons a as ih =>
      obtain ⟨m, hm, hrest⟩ := (run_cons_eq_some step).1 hrun
      exact ih (hstep s a m hI hP.1 hm) (hP.2 m hm) hrest

/-! ## Two systems -/

/-- If related states answer every action alike, with related states or not at all, then they
answer every run alike. -/
theorem run_simulates {τ : Type w} {step' : τ → α → Option τ} {R : σ → τ → Prop}
    (hstep : ∀ s t a, R s t → Option.Rel R (step s a) (step' t a)) {s : σ} {t : τ} (h : R s t)
    (as : List α) : Option.Rel R (run step s as) (run step' t as) := by
  induction as generalizing s t with
  | nil => exact .some h
  | cons a as ih =>
      have hnext := hstep s t a h
      rw [run_cons, run_cons]
      generalize step s a = o at hnext
      generalize step' t a = o' at hnext
      cases hnext with
      | none => exact .none
      | some hR => exact ih hR

/-- If a step of one system is the step of the other that `f` names, or leaves the related state
as it is, then the other can follow every run by the named actions, less some.  If `p` picks of
the followed actions what `q` picks, and `q` picks nothing where the other stands still, then
what is picked of both runs is the same. -/
theorem run_thins {τ : Type w} {β : Type x} {step' : τ → β → Option τ} {P : σ → α → Prop}
    {R : σ → τ → Prop} (f : α → β) (p : β → Bool) (q : α → Bool)
    (hstep : ∀ s t a s', R s t → P s a → step s a = some s' →
      (q a = false ∧ R s' t) ∨ (p (f a) = q a ∧ ∃ t', step' t (f a) = some t' ∧ R s' t'))
    {s s' : σ} {t : τ} {as : List α} (hR : R s t) (hP : Always step P s as)
    (hrun : run step s as = some s') :
    ∃ bs t', run step' t bs = some t' ∧ R s' t' ∧ bs.Sublist (as.map f) ∧
      bs.filter p = (as.filter q).map f := by
  induction as generalizing s t with
  | nil =>
      cases hrun
      exact ⟨[], t, rfl, hR, .slnil, rfl⟩
  | cons a as ih =>
      obtain ⟨m, hm, hrest⟩ := (run_cons_eq_some step).1 hrun
      rcases hstep s t a m hR hP.1 hm with ⟨hq, hR'⟩ | ⟨hpq, t₁, ht₁, hR'⟩
      · obtain ⟨bs, t', hbs, hR'', hsub, hpick⟩ := ih hR' (hP.2 m hm) hrest
        refine ⟨bs, t', hbs, hR'', hsub.cons _, ?_⟩
        rw [hpick, List.filter_cons_of_neg (by simp [hq])]
      · obtain ⟨bs, t', hbs, hR'', hsub, hpick⟩ := ih hR' (hP.2 m hm) hrest
        refine ⟨f a :: bs, t', (run_cons_eq_some step').2 ⟨t₁, ht₁, hbs⟩, hR'',
          hsub.cons_cons _, ?_⟩
        rw [List.filter_cons, List.filter_cons, hpq, hpick]
        cases q a <;> rfl

/-! ## Runs without their idle actions -/

/-- Deleting the actions that leave every state as it is does not change a run. -/
theorem run_filter (p : α → Bool) (hidle : ∀ s a, p a = false → step s a = some s) (s : σ)
    (as : List α) : run step s (as.filter p) = run step s as := by
  induction as generalizing s with
  | nil => rfl
  | cons a as ih =>
      cases ha : p a with
      | true => simp [ha, ih]
      | false => simp [ha, ih, hidle s a ha]

end ContextVM.Lib
