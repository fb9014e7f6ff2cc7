import Mathlib.Control.Monad.Basic

/-!
# Programs that may fail and keep what they did

`Fallible ε σ α` is a program over a state `σ` that returns an `α` or fails with an `ε`.  A
program that fails leaves the state as it was at the failure; nothing is rolled back.  `exec`
runs a program, and its simp lemmas say what each construct of such a program does to the
result and to the state.  `inOrder` is the program of a list of steps, for where other programs
may run between one step and the next.
-/

universe u

namespace ContextVM.Lib

variable {ε σ τ α β : Type u}

abbrev Fallible (ε σ α : Type u) := ExceptT ε (StateM σ) α

/-- The result of a program, and the state that it leaves. -/
def exec (c : Fallible ε σ α) (s : σ) : Except ε α × σ := c.run.run s

/-- A program over a part of the state. -/
def zoom (get : σ → τ) (set : τ → σ → σ) (c : Fallible ε τ α) : Fallible ε σ α := fun s ↦
  let (result, t) := exec c (get s)
  (result, set t s)

@[simp] theorem exec_pure (a : α) (s : σ) : exec (pure a : Fallible ε σ α) s = (.ok a, s) := rfl

@[simp] theorem exec_throw (e : ε) (s : σ) :
    exec (throw e : Fallible ε σ α) s = (.error e, s) := rfl

@[simp] theorem exec_get (s : σ) : exec (get : Fallible ε σ σ) s = (.ok s, s) := rfl

@[simp] theorem exec_modify (f : σ → σ) (s : σ) :
    exec (modify f : Fallible ε σ PUnit) s = (.ok ⟨⟩, f s) := rfl

@[simp] theorem exec_modifyGet (f : σ → α × σ) (s : σ) :
    exec (modifyGet f : Fallible ε σ α) s = (.ok (f s).1, (f s).2) := rfl

@[simp] theorem exec_ofExcept (x : Except ε α) (s : σ) :
    exec (ofExcept x : Fallible ε σ α) s = (x, s) := by
  cases x <;> rfl

@[simp] theorem exec_zoom (get : σ → τ) (set : τ → σ → σ) (c : Fallible ε τ α) (s : σ) :
    exec (zoom get set c) s = ((exec c (get s)).1, set (exec c (get s)).2 s) := rfl

/-- The rest of a program is run if the beginning returns. -/
theorem exec_bind (c : Fallible ε σ α) (k : α → Fallible ε σ β) (s : σ) :
    exec (c >>= k) s =
      match exec c s with
      | (.ok a, s') => exec (k a) s'
      | (.error e, s') => (.error e, s') := by
  unfold exec
  rw [ExceptT.run_bind, StateT.run_bind]
  change (match c.run.run s with | (x, s') => _) = _
  rcases c.run.run s with ⟨_ | a, s'⟩ <;> rfl

@[simp] theorem exec_map (f : α → β) (c : Fallible ε σ α) (s : σ) :
    exec (f <$> c) s = ((exec c s).1.map f, (exec c s).2) := by
  rw [map_eq_pure_bind, exec_bind]
  rcases exec c s with ⟨_ | a, s'⟩ <;> rfl

/-! ## Programs in steps -/

/-- The steps of a list, one after the other. -/
def inOrder : List (Fallible ε σ PUnit.{u + 1}) → Fallible ε σ PUnit
  | [] => pure ⟨⟩
  | c :: cs => c >>= fun _ ↦ inOrder cs

@[simp] theorem exec_inOrder_nil (s : σ) :
    exec (inOrder [] : Fallible ε σ PUnit) s = (.ok ⟨⟩, s) := rfl

theorem exec_inOrder_cons_ok {c : Fallible ε σ PUnit} {s s' : σ} (h : exec c s = (.ok ⟨⟩, s'))
    (cs : List (Fallible ε σ PUnit)) : exec (inOrder (c :: cs)) s = exec (inOrder cs) s' := by
  rw [inOrder, exec_bind, h]

theorem exec_inOrder_cons_error {c : Fallible ε σ PUnit} {s s' : σ} {e : ε}
    (h : exec c s = (.error e, s')) (cs : List (Fallible ε σ PUnit)) :
    exec (inOrder (c :: cs)) s = (.error e, s') := by
  rw [inOrder, exec_bind, h]

theorem inOrder_append (cs cs' : List (Fallible ε σ PUnit)) :
    inOrder (cs ++ cs') = inOrder cs >>= fun _ ↦ inOrder cs' := by
  induction cs with
  | nil => exact (pure_bind _ _).symm
  | cons c cs ih =>
      rw [List.cons_append, inOrder, ih]
      exact (bind_assoc _ _ _).symm

theorem inOrder_map {α : Type u} (f : α → Fallible ε σ PUnit) (as : List α) :
    inOrder (as.map f) = forM as f := by
  induction as with
  | nil => rfl
  | cons a as ih => rw [List.map_cons, inOrder, ih, List.forM_cons]

/-- What every step of a loop keeps. -/
theorem exec_forM_keeps {α : Type u} (I : σ → Prop) {f : α → Fallible ε σ PUnit} {as : List α}
    (hstep : ∀ a ∈ as, ∀ s, I s → I (exec (f a) s).2) {s : σ} (hI : I s) :
    I (exec (forM as f) s).2 := by
  induction as generalizing s with
  | nil => exact hI
  | cons a as ih =>
      have ha := hstep a List.mem_cons_self s hI
      rw [List.forM_cons, exec_bind]
      rcases hexec : exec (f a) s with ⟨result, s'⟩
      rw [hexec] at ha
      cases result with
      | error e => exact ha
      | ok u => exact ih (fun b hb ↦ hstep b (List.mem_cons_of_mem a hb)) ha

/-- The steps of a program over a part of the state can be taken over the whole state. -/
theorem exec_zoom_inOrder {get : σ → τ} {set : τ → σ → σ} (hget : ∀ t s, get (set t s) = t)
    (hself : ∀ s, set (get s) s = s) (hset : ∀ t t' s, set t (set t' s) = set t s)
    (cs : List (Fallible ε τ PUnit)) (s : σ) :
    exec (inOrder (cs.map (zoom get set))) s = exec (zoom get set (inOrder cs)) s := by
  induction cs generalizing s with
  | nil => exact congrArg (Prod.mk _) (hself s).symm
  | cons c cs ih =>
      rw [List.map_cons, exec_zoom]
      rcases hexec : exec c (get s) with ⟨result, t⟩
      have hstep : exec (zoom get set c) s = (result, set t s) := by rw [exec_zoom, hexec]
      cases result with
      | error e => rw [exec_inOrder_cons_error hstep, exec_inOrder_cons_error hexec]
      | ok u =>
          rw [exec_inOrder_cons_ok hstep, exec_inOrder_cons_ok hexec, ih, exec_zoom, hget, hset]

end ContextVM.Lib
