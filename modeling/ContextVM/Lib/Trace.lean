import ContextVM.Lib.Run

/-!
# What a system shows, and refinement

An abstract system is a relation `tr t o t'`: there is a step from `t` to `t'`, and it shows
the observation `o`, if there is one.  `Path tr t obs t'` are the steps from `t` to `t'` that
show `obs`, in this order, with any number of silent steps in between.

A concrete system is a partial step function with a `trace`, the observations of a state so
far.  It refines the abstract one (`Refines`) if its states are related to abstract states so
that the abstract system can follow each step, and can show what the step has added to the
trace.  Then it can follow every run (`Refines.run`).

If the abstract system is deterministic, a function from the concrete states is simpler: a view
that the labels of the steps determine (`view_of_run`).
-/

universe u v w x

namespace ContextVM.Lib

variable {τ : Type u} {ℓ : Type v} {tr : τ → Option ℓ → τ → Prop}

/-! ## Paths -/

/-- The steps from one state to another, with what they show. -/
inductive Path (tr : τ → Option ℓ → τ → Prop) : τ → List ℓ → τ → Prop
  | refl (t : τ) : Path tr t [] t
  | silent {t m t' : τ} {obs : List ℓ} (h : tr t none m) (hrest : Path tr m obs t') :
      Path tr t obs t'
  | shows {t m t' : τ} {o : ℓ} {obs : List ℓ} (h : tr t (some o) m)
      (hrest : Path tr m obs t') : Path tr t (o :: obs) t'

namespace Path

theorem of_silent {t t' : τ} (h : tr t none t') : Path tr t [] t' := .silent h (.refl t')

theorem append {t m t' : τ} {obs obs' : List ℓ} (h : Path tr t obs m)
    (h' : Path tr m obs' t') : Path tr t (obs ++ obs') t' := by
  induction h with
  | refl => exact h'
  | silent hstep _ ih => exact .silent hstep (ih h')
  | shows hstep _ ih => exact .shows hstep (ih h')

/-- A path that shows something makes silent steps first. -/
theorem of_cons {t t' : τ} {o : ℓ} {obs : List ℓ} (h : Path tr t (o :: obs) t') :
    ∃ m m', Path tr t [] m ∧ tr m (some o) m' ∧ Path tr m' obs t' := by
  generalize hobs : o :: obs = all at h
  induction h with
  | refl => cases hobs
  | silent hstep _ ih =>
      obtain ⟨m, m', hsilent, hshows, hrest⟩ := ih hobs
      exact ⟨m, m', .silent hstep hsilent, hshows, hrest⟩
  | shows hstep hrest _ =>
      cases hobs
      exact ⟨_, _, .refl _, hstep, hrest⟩

/-- A path can be cut wherever what it shows can be. -/
theorem of_append {t t' : τ} {obs obs' : List ℓ} (h : Path tr t (obs ++ obs') t') :
    ∃ m, Path tr t obs m ∧ Path tr m obs' t' := by
  induction obs generalizing t with
  | nil => exact ⟨t, .refl t, h⟩
  | cons o obs ih =>
      obtain ⟨m, m', hsilent, hshows, hrest⟩ := of_cons h
      obtain ⟨n, hn, hn'⟩ := ih hrest
      exact ⟨n, hsilent.append (.shows hshows hn), hn'⟩

end Path

/-! ## Refinement -/

section

variable {σ : Type w} {α : Type x}

/-- The abstract system can follow the steps that meet `P`. -/
def Refines (step : σ → α → Option σ) (P : σ → α → Prop) (trace : σ → List ℓ)
    (tr : τ → Option ℓ → τ → Prop) (R : σ → τ → Prop) : Prop :=
  ∀ s a s' t, R s t → P s a → step s a = some s' →
    ∃ obs t', trace s' = trace s ++ obs ∧ Path tr t obs t' ∧ R s' t'

variable {step : σ → α → Option σ} {P : σ → α → Prop} {trace : σ → List ℓ}
  {R : σ → τ → Prop}

/-- The abstract system can follow the runs whose steps all meet `P`. -/
theorem Refines.run (h : Refines step P trace tr R) {s s' : σ} {t : τ} {as : List α}
    (hR : R s t) (hP : Always step P s as) (hrun : Lib.run step s as = some s') :
    ∃ obs t', trace s' = trace s ++ obs ∧ Path tr t obs t' ∧ R s' t' := by
  induction as generalizing s t with
  | nil =>
      cases hrun
      exact ⟨[], t, (List.append_nil _).symm, .refl t, hR⟩
  | cons a as ih =>
      obtain ⟨m, hm, hrest⟩ := (run_cons_eq_some step).1 hrun
      obtain ⟨obs, t₁, htrace, hpath, hR₁⟩ := h s a m t hR hP.1 hm
      obtain ⟨obs', t₂, htrace', hpath', hR₂⟩ := ih hR₁ (hP.2 m hm) hrest
      refine ⟨obs ++ obs', t₂, ?_, hpath.append hpath', hR₂⟩
      rw [htrace', htrace, List.append_assoc]

/-! ## Labels -/

/-- What the steps of a run are labelled with.  A label can depend on the state. -/
def labels (step : σ → α → Option σ) (label : σ → α → Option ℓ) : σ → List α → List ℓ
  | _, [] => []
  | s, a :: as => (label s a).toList ++ ((step s a).map fun s' ↦ labels step label s' as).getD []

theorem labels_cons {label : σ → α → Option ℓ} {s m : σ} {a : α} (hm : step s a = some m)
    (as : List α) :
    labels step label s (a :: as) = (label s a).toList ++ labels step label m as := by
  simp [labels, hm]

/-- If a view of the states goes from step to step by the labels alone, then the labels of a
run lead to the view of its last state. -/
theorem view_of_run {label : σ → α → Option ℓ} {view : σ → τ} {next : τ → ℓ → τ}
    (hstep : ∀ s a s', step s a = some s' → view s' = (label s a).toList.foldl next (view s))
    {s s' : σ} {as : List α} (hrun : Lib.run step s as = some s') :
    view s' = (labels step label s as).foldl next (view s) := by
  induction as generalizing s with
  | nil =>
      cases hrun
      rfl
  | cons a as ih =>
      obtain ⟨m, hm, hrest⟩ := (run_cons_eq_some step).1 hrun
      rw [labels_cons hm, List.foldl_append, ← hstep s a m hm]
      exact ih hrest

end

end ContextVM.Lib
