import ContextVM.Lib.Run
import Mathlib.Data.Set.Insert
import Mathlib.Logic.Function.Basic
import Mathlib.Order.WellFounded

/-!
# Tasks that share fair read/write locks

A lock is granted in the order of the requests: to the request at the head of its queue, when
no holder excludes it.  A writer that waits therefore blocks the readers behind it.

A task runs a program that takes and gives back locks, waits for events from outside, and
branches on data that is not modelled.  `Prog.Ordered` is the discipline that a program takes
its locks in increasing order and holds none where it waits for the outside.  If all programs
keep to it, then in every state that any number of tasks can reach

* some task that has not finished is not blocked on a lock (`exists_not_blocked`);
* a task that waits for the outside holds no lock (`held_of_awaiting`).
-/

universe u v

namespace ContextVM.Lib.RwLock

/-- The modes of a lock. -/
inductive Mode where
  | read
  | write
deriving DecidableEq

/-- A program, as far as its locks go. -/
inductive Prog (L : Type u) where
  | done
  /-- The program begins anew. -/
  | again
  | acquire (l : L) (mode : Mode) (next : Prog L)
  | release (l : L) (next : Prog L)
  /-- Wait for the outside. -/
  | await (next : Prog L)
  /-- Go on in one of several ways. -/
  | choice (next : Nat → Prog L)

variable {L : Type u} {κ : Type v}

/-- Go on in one of two ways. -/
def Prog.orElse (p q : Prog L) : Prog L :=
  .choice fun
    | 0 => p
    | _ => q

/-! ## The system -/

/-- The tasks that hold a lock, and those that wait for it, the first in front. -/
structure Lock where
  holders : List (Nat × Mode)
  queue : List (Nat × Mode)

/-- Whether the holders let a request in. -/
def Lock.Admits (lock : Lock) : Mode → Prop
  | .read => ∀ h ∈ lock.holders, h.2 = .read
  | .write => lock.holders = []

instance (lock : Lock) (mode : Mode) : Decidable (lock.Admits mode) := by
  cases mode <;> unfold Lock.Admits <;> infer_instance

/-- Where a task is. -/
inductive Point (L : Type u) where
  | ready (p : Prog L)
  | waiting (l : L) (mode : Mode) (next : Prog L)

structure Task (L : Type u) (κ : Type v) where
  kind : κ
  point : Point L

structure State (L : Type u) (κ : Type v) where
  /-- A task is known by its place. -/
  tasks : List (Task L κ)
  lock : L → Lock

def State.init : State L κ := ⟨[], fun _ ↦ ⟨[], []⟩⟩

inductive Action (κ : Type v) where
  | spawn (kind : κ)
  /-- The task `i` makes its next step; `branch` is the way it goes on. -/
  | advance (i branch : Nat)

variable [DecidableEq L] (program : κ → Prog L)

namespace State

def goto (s : State L κ) (i : Nat) (kind : κ) (point : Point L) : State L κ :=
  { s with tasks := s.tasks.set i ⟨kind, point⟩ }

def setLock (s : State L κ) (l : L) (lock : Lock) : State L κ :=
  { s with lock := Function.update s.lock l lock }

/-- The task `i` joins the queue of a lock. -/
def request (s : State L κ) (i : Nat) (l : L) (mode : Mode) : State L κ :=
  s.setLock l { s.lock l with queue := (s.lock l).queue ++ [(i, mode)] }

/-- The request at the head of the queue is granted. -/
def grant (s : State L κ) (i : Nat) (l : L) (mode : Mode) : State L κ :=
  s.setLock l ⟨(i, mode) :: (s.lock l).holders, (s.lock l).queue.tail⟩

def release (s : State L κ) (i : Nat) (l : L) : State L κ :=
  s.setLock l { s.lock l with holders := (s.lock l).holders.filter fun h ↦ h.1 ≠ i }

/-- The request of the task `i` can be granted. -/
def Grantable (s : State L κ) (i : Nat) (l : L) (mode : Mode) : Prop :=
  (s.lock l).queue.head? = some (i, mode) ∧ (s.lock l).Admits mode

instance (s : State L κ) (i : Nat) (l : L) (mode : Mode) : Decidable (s.Grantable i l mode) :=
  inferInstanceAs (Decidable (_ ∧ _))

end State

def step (s : State L κ) : Action κ → Option (State L κ)
  | .spawn kind => some { s with tasks := s.tasks ++ [⟨kind, .ready (program kind)⟩] }
  | .advance i branch =>
    match s.tasks[i]? with
    | none => none
    | some ⟨kind, .ready p⟩ =>
      match p with
      | .done => none
      | .again => some (s.goto i kind (.ready (program kind)))
      | .acquire l mode p => some ((s.request i l mode).goto i kind (.waiting l mode p))
      | .release l p => some ((s.release i l).goto i kind (.ready p))
      | .await p => some (s.goto i kind (.ready p))
      | .choice next => some (s.goto i kind (.ready (next branch)))
    | some ⟨kind, .waiting l mode p⟩ =>
      if s.Grantable i l mode then some ((s.grant i l mode).goto i kind (.ready p)) else none

/-! ## What is claimed -/

namespace State

/-- The locks that the task `i` holds. -/
def held (s : State L κ) (i : Nat) : Set L := {l | ∃ mode, (i, mode) ∈ (s.lock l).holders}

/-- The task `i` has not come to the end of its program. -/
def Unfinished (s : State L κ) (i : Nat) : Prop :=
  ∃ t, s.tasks[i]? = some t ∧ t.point ≠ .ready .done

/-- The task `i` waits for a lock that is not to be had. -/
def Blocked (s : State L κ) (i : Nat) : Prop :=
  ∃ kind l mode p, s.tasks[i]? = some ⟨kind, .waiting l mode p⟩ ∧ ¬ s.Grantable i l mode

/-- The task `i` waits for the outside. -/
def Awaiting (s : State L κ) (i : Nat) : Prop :=
  ∃ kind p, s.tasks[i]? = some ⟨kind, .ready (.await p)⟩

end State

/-! ## The discipline -/

variable [Preorder L]

/-- With the locks `held`, the rest of a program takes locks in increasing order, gives back
those that it holds, and holds none where it waits for the outside or ends. -/
def Prog.Ordered : Set L → Prog L → Prop
  | held, .done | held, .again => held = ∅
  | held, .acquire l _ p => (∀ l' ∈ held, l' < l) ∧ p.Ordered (insert l held)
  | held, .release l p => l ∈ held ∧ p.Ordered (held \ {l})
  | held, .await p => held = ∅ ∧ p.Ordered held
  | held, .choice next => ∀ branch, (next branch).Ordered held

def Point.Ordered (held : Set L) : Point L → Prop
  | .ready p => p.Ordered held
  | .waiting l _ p => (∀ l' ∈ held, l' < l) ∧ p.Ordered (insert l held)

/-- A program goes on to another, and requests locks on the way. -/
inductive Prog.Path : List (L × Mode) → Prog L → Prog L → Prop
  | refl (p : Prog L) : Path [] p p
  | acquire (l : L) (mode : Mode) {taken : List (L × Mode)} {p q : Prog L} (h : Path taken p q) :
      Path ((l, mode) :: taken) (.acquire l mode p) q
  | release (l : L) {taken : List (L × Mode)} {p q : Prog L} (h : Path taken p q) :
      Path taken (.release l p) q
  | await {taken : List (L × Mode)} {p q : Prog L} (h : Path taken p q) : Path taken (.await p) q
  | choice (next : Nat → Prog L) (branch : Nat) {taken : List (L × Mode)} {q : Prog L}
      (h : Path taken (next branch) q) : Path taken (.choice next) q

section Path

variable {taken : List (L × Mode)} {p q r : Prog L}

omit [DecidableEq L] [Preorder L]

theorem Prog.Path.left (h : Path taken p r) : Path taken (p.orElse q) r := .choice _ 0 h

theorem Prog.Path.right (h : Path taken q r) : Path taken (p.orElse q) r := .choice _ 1 h

end Path

section Ordered

variable {l l' : L} {mode : Mode} {held : Set L} {p q : Prog L}

omit [DecidableEq L]

theorem Prog.ordered_orElse (hp : p.Ordered held) (hq : q.Ordered held) :
    (p.orElse q).Ordered held := by
  rintro (_ | branch)
  · exact hp
  · exact hq

theorem Prog.ordered_await (h : p.Ordered ∅) : (await p).Ordered ∅ := ⟨rfl, h⟩

/-- A program that holds nothing may take any lock. -/
theorem Prog.ordered_acquire (h : p.Ordered {l}) : (acquire l mode p).Ordered ∅ := by
  refine ⟨fun _ ↦ False.elim, ?_⟩
  rw [insert_empty_eq]
  exact h

theorem Prog.ordered_release (h : p.Ordered ∅) : (release l p).Ordered {l} := by
  refine ⟨rfl, ?_⟩
  rw [Set.sdiff_self]
  exact h

/-- While a program holds a lock it may take one that comes later, and give it back. -/
theorem Prog.ordered_nested (hlt : l < l') (h : p.Ordered {l}) :
    (acquire l' mode (release l' p)).Ordered {l} := by
  refine ⟨fun _ hl ↦ hl ▸ hlt, Set.mem_insert l' _, ?_⟩
  have hmem : l' ∉ ({l} : Set L) := fun hmem ↦ hlt.ne (Set.mem_singleton_iff.1 hmem).symm
  rw [Set.insert_sdiff_of_mem _ (Set.mem_singleton l'), Set.sdiff_singleton_eq_self hmem]
  exact h

end Ordered

/-! ## What a step does -/

variable {program}

/-- The steps of a system whose programs are ordered. -/
inductive Transition (program : κ → Prog L) (s : State L κ) : Action κ → State L κ → Prop
  | spawned (kind : κ) :
      Transition program s (.spawn kind)
        { s with tasks := s.tasks ++ [⟨kind, .ready (program kind)⟩] }
  /-- A step that has nothing to do with the locks. -/
  | moved (i branch : Nat) (kind : κ) (p p' : Prog L)
      (ht : s.tasks[i]? = some ⟨kind, .ready p⟩) (hp : ∀ held, p.Ordered held → p'.Ordered held) :
      Transition program s (.advance i branch) (s.goto i kind (.ready p'))
  | requested (i branch : Nat) (kind : κ) (l : L) (mode : Mode) (p : Prog L)
      (ht : s.tasks[i]? = some ⟨kind, .ready (.acquire l mode p)⟩) :
      Transition program s (.advance i branch)
        ((s.request i l mode).goto i kind (.waiting l mode p))
  | granted (i branch : Nat) (kind : κ) (l : L) (mode : Mode) (p : Prog L)
      (ht : s.tasks[i]? = some ⟨kind, .waiting l mode p⟩) (hg : s.Grantable i l mode) :
      Transition program s (.advance i branch) ((s.grant i l mode).goto i kind (.ready p))
  | released (i branch : Nat) (kind : κ) (l : L) (p : Prog L)
      (ht : s.tasks[i]? = some ⟨kind, .ready (.release l p)⟩) :
      Transition program s (.advance i branch) ((s.release i l).goto i kind (.ready p))

theorem step_transition (hprogram : ∀ kind, (program kind).Ordered ∅) {s s' : State L κ}
    {a : Action κ} (h : step program s a = some s') : Transition program s a s' := by
  cases a with
  | spawn kind =>
      cases h
      exact .spawned kind
  | advance i branch =>
      simp only [step] at h
      split at h
      · cases h
      · next kind p ht =>
          cases p with
          | done => cases h
          | again =>
              cases h
              refine .moved i branch kind .again _ ht fun held hheld ↦ ?_
              obtain rfl : held = ∅ := hheld
              exact hprogram kind
          | acquire l mode p =>
              cases h
              exact .requested i branch kind l mode p ht
          | release l p =>
              cases h
              exact .released i branch kind l p ht
          | await p =>
              cases h
              exact .moved i branch kind (.await p) _ ht fun held hheld ↦ hheld.2
          | choice next =>
              cases h
              exact .moved i branch kind (.choice next) _ ht fun held hheld ↦ hheld branch
      · next kind l mode p ht =>
          split at h
          · next hg =>
              cases h
              exact .granted i branch kind l mode p ht hg
          · cases h

/-! ## What a step does to the locks that are held -/

namespace State

variable (s : State L κ) (i j : Nat) (l : L) (mode : Mode)

omit [Preorder L]

theorem queue_request (l' : L) : ((s.request i l mode).lock l').queue =
    if l' = l then (s.lock l).queue ++ [(i, mode)] else (s.lock l').queue := by
  by_cases hl : l' = l
  · subst hl
    simp [request, setLock]
  · simp [request, setLock, hl]

theorem queue_grant (l' : L) : ((s.grant i l mode).lock l').queue =
    if l' = l then (s.lock l).queue.tail else (s.lock l').queue := by
  by_cases hl : l' = l
  · subst hl
    simp [grant, setLock]
  · simp [grant, setLock, hl]

theorem queue_release (l' : L) : ((s.release i l).lock l').queue = (s.lock l').queue := by
  by_cases hl : l' = l
  · subst hl
    simp [release, setLock]
  · simp [release, setLock, hl]

theorem held_request : (s.request i l mode).held j = s.held j := by
  ext l'
  by_cases hl : l' = l
  · subst hl
    simp [held, request, setLock]
  · simp [held, request, setLock, hl]

theorem held_grant :
    (s.grant i l mode).held j = if j = i then insert l (s.held i) else s.held j := by
  ext l'
  by_cases hl : l' = l
  · subst hl
    by_cases hj : j = i
    · subst hj
      simp [held, grant, setLock]
    · simp [held, grant, setLock, hj]
  · split
    · next hj =>
        subst hj
        simp [held, grant, setLock, hl]
    · simp [held, grant, setLock, hl]

theorem held_release :
    (s.release i l).held j = if j = i then s.held i \ {l} else s.held j := by
  ext l'
  by_cases hl : l' = l
  · subst hl
    by_cases hj : j = i
    · subst hj
      simp [held, release, setLock]
    · simp [held, release, setLock, hj]
  · split
    · next hj =>
        subst hj
        simp [held, release, setLock, hl]
    · simp [held, release, setLock, hl]

end State

/-! ## The invariant -/

/-- The tasks keep to the discipline, and the locks know the tasks. -/
structure LockInv (s : State L κ) : Prop where
  ordered : ∀ (i : Nat) t, s.tasks[i]? = some t → t.point.Ordered (s.held i)
  holders : ∀ l h, h ∈ (s.lock l).holders → h.1 < s.tasks.length
  queued : ∀ l (i : Nat) mode, (i, mode) ∈ (s.lock l).queue ↔
    ∃ kind p, s.tasks[i]? = some ⟨kind, .waiting l mode p⟩
  nodup : ∀ l, (s.lock l).queue.Nodup

omit [DecidableEq L] in
theorem LockInv.init : LockInv (.init : State L κ) where
  ordered := by simp [State.init]
  holders := by simp [State.init]
  queued := by simp [State.init]
  nodup := by simp [State.init]

omit [DecidableEq L] in
/-- The task `i` goes to another point when the locks have been changed for it. -/
theorem LockInv.goto {s s₁ : State L κ} (hI : LockInv s) {i : Nat} {t₀ : Task L κ} {kind : κ}
    {point : Point L} (ht : s.tasks[i]? = some t₀) (htasks : s₁.tasks = s.tasks)
    (hpoint : point.Ordered (s₁.held i)) (hheld : ∀ j, j ≠ i → s₁.held j = s.held j)
    (hself : ∀ l mode, (i, mode) ∈ (s₁.lock l).queue ↔ ∃ p, point = .waiting l mode p)
    (hqueue : ∀ l j mode, j ≠ i → ((j, mode) ∈ (s₁.lock l).queue ↔ (j, mode) ∈ (s.lock l).queue))
    (hnodup : ∀ l, (s₁.lock l).queue.Nodup) : LockInv (s₁.goto i kind point) := by
  obtain ⟨hi, -⟩ := List.getElem?_eq_some_iff.1 ht
  have hsame : (s₁.goto i kind point).tasks[i]? = some ⟨kind, point⟩ := by
    rw [State.goto, htasks]
    exact List.getElem?_set_self hi
  have hother : ∀ j : Nat, j ≠ i → (s₁.goto i kind point).tasks[j]? = s.tasks[j]? := fun j hj ↦ by
    rw [State.goto, htasks]
    exact List.getElem?_set_ne (Ne.symm hj)
  refine ⟨?_, ?_, ?_, hnodup⟩
  · intro j t hj
    by_cases hji : j = i
    · subst hji
      cases hsame.symm.trans hj
      exact hpoint
    · rw [hother j hji] at hj
      have hordered := hI.ordered j t hj
      rw [← hheld j hji] at hordered
      exact hordered
  · rintro l ⟨j, mode⟩ hh
    rw [State.goto, List.length_set, htasks]
    by_cases hji : j = i
    · exact hji ▸ hi
    · have hmem : l ∈ s.held j := hheld j hji ▸ ⟨mode, hh⟩
      obtain ⟨mode', hh'⟩ := hmem
      exact hI.holders l (j, mode') hh'
  · intro l j mode
    by_cases hji : j = i
    · subst hji
      rw [hsame]
      exact (hself l mode).trans (by simp)
    · rw [hother j hji]
      exact (hqueue l j mode hji).trans (hI.queued l j mode)

omit [DecidableEq L] in
/-- A task that is ready waits for no lock. -/
theorem LockInv.not_mem_queue {s : State L κ} (hI : LockInv s) {i : Nat} {kind : κ} {p : Prog L}
    (ht : s.tasks[i]? = some ⟨kind, .ready p⟩) (l : L) (mode : Mode) :
    (i, mode) ∉ (s.lock l).queue := by
  intro hmem
  obtain ⟨kind', p', ht'⟩ := (hI.queued l i mode).1 hmem
  cases ht.symm.trans ht'

section Steps

variable {s : State L κ} {i : Nat} {kind : κ} {l : L} {mode : Mode} {p : Prog L}

omit [DecidableEq L] in
/-- A new task holds no lock and waits for none. -/
theorem LockInv.spawned (hI : LockInv s) (hordered : p.Ordered ∅) :
    LockInv { s with tasks := s.tasks ++ [⟨kind, .ready p⟩] } := by
  have hcases : ∀ (j : Nat) t, (s.tasks ++ [⟨kind, .ready p⟩])[j]? = some t →
      s.tasks[j]? = some t ∨ j = s.tasks.length ∧ t = ⟨kind, .ready p⟩ := by
    intro j t hj
    rw [List.getElem?_append] at hj
    split at hj
    · exact .inl hj
    · next hlt =>
        rw [List.getElem?_singleton, Option.ite_none_right_eq_some] at hj
        exact .inr ⟨by omega, (Option.some.inj hj.2).symm⟩
  refine ⟨?_, ?_, ?_, hI.nodup⟩
  · intro j t hj
    rcases hcases j t hj with hj | ⟨rfl, rfl⟩
    · exact hI.ordered j t hj
    · -- nobody holds a lock under the name of the new task
      have hheld : s.held s.tasks.length = ∅ := by
        ext l
        refine iff_of_false ?_ id
        rintro ⟨mode, hmem⟩
        exact Nat.lt_irrefl _ (hI.holders l _ hmem)
      change p.Ordered (s.held s.tasks.length)
      rw [hheld]
      exact hordered
  · intro l h hh
    rw [List.length_append]
    exact Nat.lt_add_right _ (hI.holders l h hh)
  · intro l j mode
    rw [hI.queued l j mode]
    constructor
    · rintro ⟨kind', p', ht⟩
      obtain ⟨hj, -⟩ := List.getElem?_eq_some_iff.1 ht
      exact ⟨kind', p', (List.getElem?_append_left hj).trans ht⟩
    · rintro ⟨kind', p', ht⟩
      rcases hcases j _ ht with ht | ⟨-, hnew⟩
      · exact ⟨kind', p', ht⟩
      · cases hnew

theorem LockInv.requested (hI : LockInv s)
    (ht : s.tasks[i]? = some ⟨kind, .ready (.acquire l mode p)⟩) :
    LockInv ((s.request i l mode).goto i kind (.waiting l mode p)) := by
  have hordered : (∀ l' ∈ s.held i, l' < l) ∧ p.Ordered (insert l (s.held i)) :=
    hI.ordered i _ ht
  refine hI.goto ht rfl ?_ (fun j _ ↦ s.held_request i j l mode) ?_ ?_ ?_
  · rw [s.held_request i i l mode]
    exact hordered
  · intro l' mode'
    rw [s.queue_request]
    by_cases hl : l' = l
    · subst hl
      simp [hI.not_mem_queue ht, eq_comm]
    · rw [if_neg hl]
      exact iff_of_false (hI.not_mem_queue ht l' mode') (by simp [Ne.symm hl])
  · intro l' j mode' hj
    rw [s.queue_request]
    split
    · next hl =>
        subst hl
        simp [hj]
    · rfl
  · intro l'
    rw [s.queue_request]
    split
    · refine List.nodup_append.2 ⟨hI.nodup l, by simp, ?_⟩
      rintro h hh _ hnew rfl
      rw [List.mem_singleton.1 hnew] at hh
      exact hI.not_mem_queue ht l mode hh
    · exact hI.nodup l'

omit [DecidableEq L] in
/-- A task that waits has one request. -/
theorem LockInv.request_unique (hI : LockInv s)
    (ht : s.tasks[i]? = some ⟨kind, .waiting l mode p⟩) {l' : L} {mode' : Mode}
    (hmem : (i, mode') ∈ (s.lock l').queue) : l' = l ∧ mode' = mode := by
  obtain ⟨kind', p', ht'⟩ := (hI.queued l' i mode').1 hmem
  cases ht.symm.trans ht'
  exact ⟨rfl, rfl⟩

theorem LockInv.granted (hI : LockInv s)
    (ht : s.tasks[i]? = some ⟨kind, .waiting l mode p⟩)
    (hhead : (s.lock l).queue.head? = some (i, mode)) :
    LockInv ((s.grant i l mode).goto i kind (.ready p)) := by
  have hordered : (∀ l' ∈ s.held i, l' < l) ∧ p.Ordered (insert l (s.held i)) :=
    hI.ordered i _ ht
  obtain ⟨rest, hrest⟩ : ∃ rest, (s.lock l).queue = (i, mode) :: rest :=
    List.head?_eq_some_iff.1 hhead
  have hnodup := hI.nodup l
  rw [hrest, List.nodup_cons] at hnodup
  refine hI.goto ht rfl ?_ ?_ ?_ ?_ ?_
  · rw [s.held_grant i i l mode, if_pos rfl]
    exact hordered.2
  · intro j hj
    rw [s.held_grant i j l mode, if_neg hj]
  · intro l' mode'
    refine iff_of_false (fun hmem ↦ ?_) (by simp)
    rw [s.queue_grant] at hmem
    split at hmem
    · -- the request was at the head of the queue, and there is no other
      rw [hrest, List.tail_cons] at hmem
      have hmem' : (i, mode') ∈ (s.lock l).queue := hrest ▸ List.mem_cons_of_mem _ hmem
      obtain ⟨-, rfl⟩ := hI.request_unique ht hmem'
      exact hnodup.1 hmem
    · next hl => exact hl (hI.request_unique ht hmem).1
  · intro l' j mode' hj
    rw [s.queue_grant]
    split
    · next hl =>
        subst hl
        simp [hrest, hj]
    · rfl
  · intro l'
    rw [s.queue_grant]
    split
    · rw [hrest]
      exact hnodup.2
    · exact hI.nodup l'

theorem LockInv.released (hI : LockInv s)
    (ht : s.tasks[i]? = some ⟨kind, .ready (.release l p)⟩) :
    LockInv ((s.release i l).goto i kind (.ready p)) := by
  have hordered : l ∈ s.held i ∧ p.Ordered (s.held i \ {l}) := hI.ordered i _ ht
  refine hI.goto ht rfl ?_ ?_ ?_ ?_ ?_
  · rw [s.held_release i i l, if_pos rfl]
    exact hordered.2
  · intro j hj
    rw [s.held_release i j l, if_neg hj]
  · intro l' mode'
    rw [s.queue_release]
    exact iff_of_false (hI.not_mem_queue ht l' mode') (by simp)
  · intro l' j mode' _
    rw [s.queue_release]
  · intro l'
    rw [s.queue_release]
    exact hI.nodup l'

end Steps

theorem Transition.lockInv (hprogram : ∀ kind, (program kind).Ordered ∅) {s s' : State L κ}
    {a : Action κ} (h : Transition program s a s') (hI : LockInv s) : LockInv s' := by
  cases h with
  | spawned kind => exact hI.spawned (hprogram kind)
  | moved i branch kind p p' ht hp =>
      refine hI.goto ht rfl (hp _ (hI.ordered i _ ht)) (fun _ _ ↦ rfl) ?_ (fun _ _ _ _ ↦ Iff.rfl)
        hI.nodup
      exact fun l mode ↦ iff_of_false (hI.not_mem_queue ht l mode) (by simp)
  | requested i branch kind l mode p ht => exact hI.requested ht
  | granted i branch kind l mode p ht hg => exact hI.granted ht hg.1
  | released i branch kind l p ht => exact hI.released ht

/-! ## Freedom from deadlock -/

theorem Reaches.lockInv (hprogram : ∀ kind, (program kind).Ordered ∅) {s : State L κ}
    (hs : Reaches (step program) .init s) : LockInv s :=
  hs.induct _ LockInv .init fun _ _ _ _ hI hstep ↦
    (step_transition hprogram hstep).lockInv hprogram hI

omit [DecidableEq L] [Preorder L] in
/-- What keeps a request out is a holder. -/
theorem Lock.exists_holder {lock : Lock} {mode : Mode} (h : ¬ lock.Admits mode) :
    ∃ holder, holder ∈ lock.holders := by
  cases mode with
  | read =>
      obtain ⟨holder, hmem, -⟩ : ∃ x, x ∈ lock.holders ∧ ¬ x.2 = .read := by
        simpa [Lock.Admits] using h
      exact ⟨holder, hmem⟩
  | write => exact List.exists_mem_of_ne_nil _ h

omit [DecidableEq L] in
/-- The lock that a blocked task waits for comes after those that it holds, and has a queue. -/
theorem LockInv.blocked {s : State L κ} (hI : LockInv s) {i : Nat} (hi : s.Blocked i) :
    ∃ l, (∀ l' ∈ s.held i, l' < l) ∧ ∃ h, (s.lock l).queue.head? = some h := by
  obtain ⟨kind, l, mode, p, ht, -⟩ := hi
  have hordered : (∀ l' ∈ s.held i, l' < l) ∧ p.Ordered (insert l (s.held i)) :=
    hI.ordered i _ ht
  have hmem : (i, mode) ∈ (s.lock l).queue := (hI.queued l i mode).2 ⟨kind, p, ht⟩
  cases hq : (s.lock l).queue with
  | nil => simp [hq] at hmem
  | cons h rest => exact ⟨l, hordered.1, h, by rw [hq]; rfl⟩

omit [DecidableEq L] in
/-- If there is a request for a lock, some task is not blocked: the first that waits for it, or
one that holds it, or one that such a task waits for. -/
theorem exists_not_blocked_of_queue [WellFoundedGT L] {s : State L κ} (hI : LockInv s) (l : L) :
    ∀ h, (s.lock l).queue.head? = some h → ∃ i, s.Unfinished i ∧ ¬ s.Blocked i := by
  -- a holder that is blocked waits for a lock that comes later
  induction l using WellFoundedGT.induction with
  | ind l ih =>
      rintro ⟨j, mode⟩ hhead
      obtain ⟨kind, p, ht⟩ := (hI.queued l j mode).1 (List.mem_of_head? hhead)
      by_cases hadmits : (s.lock l).Admits mode
      · refine ⟨j, ⟨_, ht, by simp⟩, ?_⟩
        rintro ⟨kind', l', mode', p', ht', hblocked⟩
        cases ht.symm.trans ht'
        exact hblocked ⟨hhead, hadmits⟩
      · obtain ⟨⟨k, m⟩, hholder⟩ := Lock.exists_holder hadmits
        have hheld : l ∈ s.held k := ⟨m, hholder⟩
        obtain ⟨t, htk⟩ : ∃ t, s.tasks[k]? = some t :=
          ⟨_, List.getElem?_eq_getElem (hI.holders l _ hholder)⟩
        have hunfinished : s.Unfinished k := by
          refine ⟨t, htk, fun hdone ↦ ?_⟩
          have hordered := hI.ordered k t htk
          rw [hdone] at hordered
          have hempty : s.held k = ∅ := hordered
          exact Set.notMem_empty l (hempty ▸ hheld)
        by_cases hblocked : s.Blocked k
        · obtain ⟨l', hlt, h, hhead'⟩ := hI.blocked hblocked
          exact ih l' (hlt l hheld) h hhead'
        · exact ⟨k, hunfinished, hblocked⟩

/-- As long as some task has not finished, some such task is not blocked. -/
theorem exists_not_blocked [WellFoundedGT L] (hprogram : ∀ kind, (program kind).Ordered ∅)
    {s : State L κ} (hs : Reaches (step program) .init s) {i : Nat} (hi : s.Unfinished i) :
    ∃ j, s.Unfinished j ∧ ¬ s.Blocked j := by
  have hI := Reaches.lockInv hprogram hs
  by_cases hblocked : s.Blocked i
  · obtain ⟨l, -, h, hhead⟩ := hI.blocked hblocked
    exact exists_not_blocked_of_queue hI l h hhead
  · exact ⟨i, hi, hblocked⟩

/-- A task that waits for the outside holds no lock. -/
theorem held_of_awaiting (hprogram : ∀ kind, (program kind).Ordered ∅) {s : State L κ}
    (hs : Reaches (step program) .init s) {i : Nat} (hi : s.Awaiting i) : s.held i = ∅ := by
  obtain ⟨kind, p, ht⟩ := hi
  have hordered : s.held i = ∅ ∧ p.Ordered (s.held i) :=
    (Reaches.lockInv hprogram hs).ordered i _ ht
  exact hordered.1

end ContextVM.Lib.RwLock
