import Mathlib.Data.List.Induction
import Mathlib.Logic.Function.Basic

/-!
# Leases

Soft state.  A key that is renewed has a lease.  A sweep takes the leases whose last renewal is
more than `timeout` ago, and a clear takes all of them.  Nothing happens at the timeout itself,
so a lease can grow older than that until the next sweep.

* `renewed_after_iff`: which keys have a lease after a history, and from when it is;
* `age_le`, `exists_renewed_recently`: if a sweep comes at least every `interval`, no lease is
  older than `timeout + interval`;
* `isSome_renewed`: a key that is renewed at least every `timeout` keeps its lease.
-/

universe u

namespace ContextVM.Lib

/-- The time, and when the keys that have a lease were renewed last. -/
structure Lease (κ : Type u) where
  now : Nat
  renewed : κ → Option Nat

namespace Lease

variable {κ : Type u}

inductive Event (κ : Type u) where
  | renew (k : κ)
  | sweep
  | clear
  | elapse (d : Nat)
deriving DecidableEq

def init : Lease κ := ⟨0, fun _ ↦ none⟩

/-- The time that a history takes. -/
def clock : List (Event κ) → Nat
  | [] => 0
  | .renew _ :: evs => clock evs
  | .sweep :: evs => clock evs
  | .clear :: evs => clock evs
  | .elapse d :: evs => d + clock evs

theorem clock_append (evs evs' : List (Event κ)) :
    clock (evs ++ evs') = clock evs + clock evs' := by
  induction evs with
  | nil => exact (Nat.zero_add _).symm
  | cons o evs ih => cases o <;> simp only [List.cons_append, clock, ih, Nat.add_assoc]

/-- The history takes no lease of the key that is of this age at its beginning, and does not
renew it. -/
def Spares (timeout : Nat) (k : κ) : Nat → List (Event κ) → Prop
  | _, [] => True
  | age, .renew k' :: evs => k' ≠ k ∧ Spares timeout k age evs
  | age, .sweep :: evs => age ≤ timeout ∧ Spares timeout k age evs
  | _, .clear :: _ => False
  | age, .elapse d :: evs => Spares timeout k (age + d) evs

theorem spares_append {timeout : Nat} {k : κ} {age : Nat} {evs evs' : List (Event κ)} :
    Spares timeout k age (evs ++ evs') ↔
      Spares timeout k age evs ∧ Spares timeout k (age + clock evs) evs' := by
  induction evs generalizing age with
  | nil => exact (and_iff_right trivial).symm
  | cons o evs ih =>
      cases o with
      | renew k' => simp only [List.cons_append, Spares, ih, clock, and_assoc]
      | sweep => simp only [List.cons_append, Spares, ih, clock, and_assoc]
      | clear => simp only [List.cons_append, Spares, false_and]
      | elapse d => simp only [List.cons_append, Spares, ih, clock, Nat.add_assoc]

theorem spares_of_young {timeout : Nat} {k : κ} {age : Nat} {evs : List (Event κ)}
    (hrenew : .renew k ∉ evs) (hclear : .clear ∉ evs) (hage : age + clock evs ≤ timeout) :
    Spares timeout k age evs := by
  induction evs generalizing age with
  | nil => trivial
  | cons o evs ih =>
      rw [List.mem_cons, not_or] at hrenew hclear
      cases o with
      | renew k' => exact ⟨fun hk ↦ hrenew.1 (hk ▸ rfl), ih hrenew.2 hclear.2 hage⟩
      | sweep => exact ⟨Nat.le_of_add_right_le hage, ih hrenew.2 hclear.2 hage⟩
      | clear => exact absurd rfl hclear.1
      | elapse d =>
          rw [clock, ← Nat.add_assoc] at hage
          exact ih hrenew.2 hclear.2 hage

/-- The key was renewed at `t`, and the lease has been spared since. -/
def Holds (timeout : Nat) (k : κ) (t : Nat) (evs : List (Event κ)) : Prop :=
  ∃ earlier later, evs = earlier ++ .renew k :: later ∧ t = clock earlier ∧
    Spares timeout k 0 later

theorem holds_concat {timeout : Nat} {k : κ} {t : Nat} {evs : List (Event κ)} {o : Event κ} :
    Holds timeout k t (evs ++ [o]) ↔ (o = .renew k ∧ t = clock evs) ∨
      (Holds timeout k t evs ∧ Spares timeout k (clock evs - t) [o]) := by
  constructor
  · rintro ⟨earlier, later, heq, rfl, hspares⟩
    induction later using List.reverseRecOn with
    | nil =>
        obtain ⟨rfl, ho⟩ := List.append_inj' heq rfl
        exact .inl ⟨(List.cons.inj ho).1, rfl⟩
    | append_singleton later o' _ =>
        rw [← List.cons_append, ← List.append_assoc] at heq
        obtain ⟨rfl, ho⟩ := List.append_inj' heq rfl
        obtain rfl := (List.cons.inj ho).1
        obtain ⟨hlater, ho⟩ := (spares_append).1 hspares
        refine .inr ⟨⟨earlier, later, rfl, rfl, hlater⟩, ?_⟩
        rw [clock_append, Nat.add_sub_cancel_left]
        rwa [Nat.zero_add] at ho
  · rintro (⟨rfl, rfl⟩ | ⟨⟨earlier, later, rfl, rfl, hlater⟩, ho⟩)
    · exact ⟨evs, [], rfl, rfl, trivial⟩
    · refine ⟨earlier, later ++ [o], by rw [List.append_assoc, List.cons_append], rfl, ?_⟩
      rw [clock_append, Nat.add_sub_cancel_left] at ho
      rw [spares_append, Nat.zero_add]
      exact ⟨hlater, ho⟩

section

variable [DecidableEq κ] (timeout : Nat)

def step (l : Lease κ) : Event κ → Lease κ
  | .renew k => { l with renewed := Function.update l.renewed k (some l.now) }
  | .sweep =>
    { l with renewed := fun k ↦ (l.renewed k).filter fun t ↦ decide (l.now - t ≤ timeout) }
  | .clear => { l with renewed := fun _ ↦ none }
  | .elapse d => { l with now := l.now + d }

theorem renewed_sweep {timeout : Nat} {l : Lease κ} {k : κ} {t : Nat} :
    (step timeout l .sweep).renewed k = some t ↔ l.renewed k = some t ∧ l.now - t ≤ timeout := by
  rw [step, Option.filter_eq_some_iff, decide_eq_true_eq]

/-- What is left after a history. -/
def after (l : Lease κ) (evs : List (Event κ)) : Lease κ := evs.foldl (step timeout) l

theorem now_after (l : Lease κ) (evs : List (Event κ)) :
    (after timeout l evs).now = l.now + clock evs := by
  unfold after
  induction evs generalizing l with
  | nil => rfl
  | cons o evs ih =>
      rw [List.foldl_cons, ih]
      cases o <;> simp [step, clock, Nat.add_assoc]

variable {timeout}

/-! ## Which leases there are -/

/-- A key has a lease from `t` exactly if it was renewed then and nothing has taken the lease
or renewed it since. -/
theorem renewed_after_iff {evs : List (Event κ)} {k : κ} {t : Nat} :
    (after timeout init evs).renewed k = some t ↔ Holds timeout k t evs := by
  induction evs using List.reverseRecOn generalizing k t with
  | nil =>
      refine iff_of_false (fun h ↦ by cases h) ?_
      rintro ⟨earlier, later, heq, -⟩
      exact absurd heq.symm (by simp)
  | append_singleton evs o ih =>
      have hnow : (after timeout init evs).now = clock evs := by
        rw [now_after, init, Nat.zero_add]
      rw [holds_concat, ← ih, after, List.foldl_append, List.foldl_cons, List.foldl_nil, ← after]
      cases o with
      | renew k' =>
          by_cases hk : k' = k
          · subst hk
            simp [step, Spares, hnow, eq_comm]
          · simp [step, Spares, hk, Function.update_of_ne (Ne.symm hk)]
      | sweep => simp [renewed_sweep, Spares, hnow]
      | clear => simp [step, Spares]
      | elapse d => simp [step, Spares]

/-! ## How old a lease can be -/

/-- There is no stretch of the history longer than `interval` without a sweep. -/
def Swept (interval : Nat) (evs : List (Event κ)) : Prop :=
  ∀ earlier stretch later, evs = earlier ++ stretch ++ later → .sweep ∉ stretch →
    clock stretch ≤ interval

/-- A lease was renewed at most `timeout + interval` ago. -/
theorem age_le {interval : Nat} {evs : List (Event κ)} (hswept : Swept interval evs) {k : κ}
    {t : Nat} (h : (after timeout init evs).renewed k = some t) :
    clock evs ≤ t + timeout + interval := by
  obtain ⟨earlier, later, rfl, rfl, hspares⟩ := renewed_after_iff.1 h
  rw [clock_append, clock]
  by_cases hsweep : .sweep ∈ later
  · -- the last sweep has found the lease young enough
    obtain ⟨after, before, heq, hafter⟩ :=
      List.eq_append_cons_of_mem (List.mem_reverse.2 hsweep)
    have hlater : later = before.reverse ++ .sweep :: after.reverse := by
      rw [← List.reverse_reverse later, heq]
      simp
    subst hlater
    have hage : 0 + clock before.reverse ≤ timeout := (spares_append.1 hspares).2.1
    have hrest := hswept (earlier ++ .renew k :: (before.reverse ++ [.sweep])) after.reverse []
      (by simp) (by simpa using hafter)
    rw [clock_append, clock]
    omega
  · have hlater := hswept (earlier ++ [.renew k]) later [] (by simp) hsweep
    omega

omit [DecidableEq κ] in
/-- The latest part of a history that takes no longer than `span`. -/
theorem exists_recent (span : Nat) (evs : List (Event κ)) : ∃ earlier recent,
    evs = earlier ++ recent ∧ clock recent ≤ span ∧
      ∀ later, later <:+ evs → clock later ≤ span → later <:+ recent := by
  induction evs with
  | nil => exact ⟨[], [], rfl, Nat.zero_le _, fun later h _ ↦ h⟩
  | cons o evs ih =>
      by_cases hspan : clock (o :: evs) ≤ span
      · exact ⟨[], o :: evs, rfl, hspan, fun later h _ ↦ h⟩
      · obtain ⟨earlier, recent, rfl, hrecent, hlatest⟩ := ih
        refine ⟨o :: earlier, recent, rfl, hrecent, fun later h hlater ↦ ?_⟩
        rcases List.suffix_cons_iff.1 h with rfl | h
        · exact absurd hlater hspan
        · exact hlatest later h hlater

/-- The keys that have a lease have been renewed of late. -/
theorem exists_renewed_recently {interval : Nat} {evs : List (Event κ)}
    (hswept : Swept interval evs) : ∃ earlier recent, evs = earlier ++ recent ∧
      clock recent ≤ timeout + interval ∧
      ∀ k, ((after timeout init evs).renewed k).isSome = true → .renew k ∈ recent := by
  obtain ⟨earlier, recent, heq, hrecent, hlatest⟩ := exists_recent (timeout + interval) evs
  refine ⟨earlier, recent, heq, hrecent, fun k hk ↦ ?_⟩
  obtain ⟨t, ht⟩ := Option.isSome_iff_exists.1 hk
  have hage := age_le hswept ht
  obtain ⟨before, later, rfl, rfl, -⟩ := renewed_after_iff.1 ht
  have hsuffix : .renew k :: later <:+ recent := by
    refine hlatest _ (List.suffix_append ..) ?_
    rw [clock_append] at hage
    omega
  exact hsuffix.subset List.mem_cons_self

/-! ## Keys that are renewed in time -/

/-- A key keeps its lease as long as there is no stretch longer than `timeout` in which it is
not renewed. -/
theorem isSome_renewed {earlier later : List (Event κ)} {k : κ} (hclear : .clear ∉ later)
    (hrenewed : ∀ before stretch, later = before ++ stretch → .renew k ∉ stretch →
      clock stretch ≤ timeout) :
    ((after timeout init (earlier ++ .renew k :: later)).renewed k).isSome = true := by
  suffices h : ∃ t, Holds timeout k t (earlier ++ .renew k :: later) by
    obtain ⟨t, ht⟩ := h
    rw [renewed_after_iff.2 ht]
    rfl
  by_cases hrenew : .renew k ∈ later
  · -- the last renewal counts
    obtain ⟨after, before, heq, hafter⟩ :=
      List.eq_append_cons_of_mem (List.mem_reverse.2 hrenew)
    have hlater : later = before.reverse ++ .renew k :: after.reverse := by
      rw [← List.reverse_reverse later, heq]
      simp
    subst hlater
    have hnone : .renew k ∉ after.reverse := by simpa using hafter
    refine ⟨_, earlier ++ .renew k :: before.reverse, after.reverse, by simp, rfl,
      spares_of_young hnone ?_ ?_⟩
    · intro hmem
      exact hclear (by simp [List.mem_reverse.1 hmem])
    · rw [Nat.zero_add]
      exact hrenewed (before.reverse ++ [.renew k]) _ (by simp) hnone
  · refine ⟨_, earlier, later, rfl, rfl, spares_of_young hrenew hclear ?_⟩
    rw [Nat.zero_add]
    exact hrenewed [] later rfl hrenew

end

end Lease

end ContextVM.Lib
