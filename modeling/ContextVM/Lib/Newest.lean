import Mathlib.Data.List.Pairwise

/-!
# Stores that keep one item for each key

`Keyed key` is a list of items with distinct keys.  `Keyed.put` enters an item that may or may
not take the place of the one that has its key, as `replaces` decides.

After a sequence of `put`s, the item of a key is the `newest` of those that were entered under
this key (`Keyed.find_foldl_put`).
-/

universe u v w

namespace ContextVM.Lib

variable {α : Type u} {β : Type v} {κ : Type w} (replaces : α → α → Bool)

/-! ## The newest of a list -/

/-- The better of two items, the second of which came later. -/
def keep (best : Option α) (a : α) : Option α :=
  match best with
  | none => some a
  | some b => some (if replaces a b then a else b)

/-- What is left of a sequence of items if each takes the place of the one before or not. -/
def newest (as : List α) : Option α := as.foldl (keep replaces) none

theorem newest_map (f : β → α) (bs : List β) :
    newest replaces (bs.map f) = (newest (fun b b' ↦ replaces (f b) (f b')) bs).map f := by
  have hkeep : ∀ best : Option β, (bs.map f).foldl (keep replaces) (best.map f) =
      (bs.foldl (keep fun b b' ↦ replaces (f b) (f b')) best).map f := by
    induction bs with
    | nil => exact fun _ ↦ rfl
    | cons b bs ih =>
        intro best
        rw [List.map_cons, List.foldl_cons, List.foldl_cons, ← ih]
        congr 1
        cases best with
        | none => rfl
        | some b' => exact congrArg some (apply_ite f _ b b').symm
  exact hkeep none

theorem newest_eq_none {as : List α} : newest replaces as = none ↔ as = [] := by
  have hsome : ∀ (as : List α) (a : α), (as.foldl (keep replaces) (some a)).isSome := by
    intro as
    induction as with
    | nil => exact fun _ ↦ rfl
    | cons b as ih => exact fun a ↦ ih (if replaces b a then b else a)
  cases as with
  | nil => exact iff_of_true rfl rfl
  | cons a as =>
      refine iff_of_false (fun hnone ↦ ?_) (List.cons_ne_nil a as)
      exact Option.isSome_iff_ne_none.1 (hsome as a) hnone

theorem newest_mem {a : α} {as : List α} (h : newest replaces as = some a) : a ∈ as := by
  have hmem : ∀ best : Option α, as.foldl (keep replaces) best = some a →
      best = some a ∨ a ∈ as := by
    clear h
    induction as with
    | nil => exact fun _ ↦ .inl
    | cons a' as ih =>
        intro best hbest
        rcases ih _ hbest with hkeep | hmem
        · cases best with
          | none => exact .inr (Option.some.inj hkeep ▸ List.mem_cons_self)
          | some b =>
              rw [keep, Option.some.injEq] at hkeep
              split at hkeep
              · exact .inr (hkeep ▸ List.mem_cons_self)
              · exact .inl (congrArg some hkeep)
        · exact .inr (List.mem_cons_of_mem a' hmem)
  exact (hmem none h).resolve_left (by simp)

/-- If every item takes the place of those before it, the newest is the last. -/
theorem newest_eq_getLast? {as : List α} (h : as.Pairwise fun a b ↦ replaces b a = true) :
    newest replaces as = as.getLast? := by
  have hfold : ∀ (as : List α) (a : α), (a :: as).Pairwise (fun a b ↦ replaces b a = true) →
      as.foldl (keep replaces) (some a) = (a :: as).getLast? := by
    intro as
    induction as with
    | nil => exact fun _ _ ↦ rfl
    | cons b as ih =>
        intro a h
        obtain ⟨ha, hrest⟩ := List.pairwise_cons.1 h
        have hb : keep replaces (some a) b = some b :=
          congrArg some (if_pos (ha b List.mem_cons_self))
        rw [List.foldl_cons, hb, ih b hrest, List.getLast?_cons_cons]
  cases as with
  | nil => rfl
  | cons a as => exact hfold as a h

/-- The last value of a sequence whose last item has one. -/
theorem getLast?_filterMap_of_isSome {f : α → Option β} {as : List α}
    (h : ∀ a ∈ as, (f a).isSome) : (as.filterMap f).getLast? = as.getLast?.bind f := by
  rcases List.eq_nil_or_concat as with rfl | ⟨init, a, rfl⟩
  · rfl
  · obtain ⟨b, hb⟩ := Option.isSome_iff_exists.1 (h a (by simp))
    rw [List.concat_eq_append, List.filterMap_append, List.filterMap_cons_some hb,
      List.filterMap_nil, List.getLast?_concat, List.getLast?_concat, Option.bind_some, hb]

/-! ## Stores -/

/-- Items with distinct keys. -/
structure Keyed (key : α → κ) where
  items : List α
  distinct : items.Pairwise fun a b ↦ key a ≠ key b

namespace Keyed

variable {key : α → κ} [DecidableEq κ]

def empty : Keyed key := ⟨[], .nil⟩

/-- The item of a key. -/
def find (s : Keyed key) (k : κ) : Option α := s.items.find? fun a ↦ key a = k

def filter (p : α → Bool) (s : Keyed key) : Keyed key := ⟨s.items.filter p, s.distinct.filter p⟩

/-- Enter an item in the place of the one that has its key. -/
def insert (a : α) (s : Keyed key) : Keyed key where
  items := a :: s.items.filter fun b ↦ key b ≠ key a
  distinct := by
    refine List.pairwise_cons.2 ⟨fun b hb ↦ ?_, s.distinct.filter _⟩
    exact Ne.symm (of_decide_eq_true (List.mem_filter.1 hb).2)

/-- Enter an item, unless the one that has its key is to stay. -/
def put (s : Keyed key) (a : α) : Keyed key :=
  match s.find (key a) with
  | none => s.insert a
  | some old => if replaces a old then s.insert a else s

theorem find_eq_some {s : Keyed key} {k : κ} {a : α} :
    s.find k = some a ↔ a ∈ s.items ∧ key a = k := by
  obtain ⟨items, hdistinct⟩ := s
  constructor
  · intro h
    have hk : decide (key a = k) = true := List.find?_some (p := fun a ↦ decide (key a = k)) h
    exact ⟨List.mem_of_find?_eq_some h, of_decide_eq_true hk⟩
  · rintro ⟨ha, rfl⟩
    change items.find? (fun b ↦ key b = key a) = some a
    induction items with
    | nil => cases ha
    | cons b bs ih =>
        rw [List.pairwise_cons] at hdistinct
        rcases List.mem_cons.1 ha with rfl | ha
        · exact List.find?_cons_of_pos (decide_eq_true rfl)
        · rw [List.find?_cons_of_neg (by simpa using hdistinct.1 a ha)]
          exact ih hdistinct.2 ha

/-- The items with a key, without repetition: there is one at most. -/
theorem eq_toList_find {s : Keyed key} {k : κ} {as : List α} (hnodup : as.Nodup)
    (h : ∀ a, a ∈ as ↔ a ∈ s.items ∧ key a = k) : as = (s.find k).toList := by
  have hfind : ∀ a ∈ as, s.find k = some a := fun a ha ↦ find_eq_some.2 ((h a).1 ha)
  cases as with
  | nil =>
      cases hs : s.find k with
      | none => rfl
      | some a => exact absurd ((h a).2 (find_eq_some.1 hs)) List.not_mem_nil
  | cons a as =>
      have hnil : as = [] := by
        refine List.eq_nil_iff_forall_not_mem.2 fun b hb ↦ ?_
        have hab : a = b := Option.some.inj
          ((hfind a List.mem_cons_self).symm.trans (hfind b (List.mem_cons_of_mem a hb)))
        exact (List.nodup_cons.1 hnodup).1 (hab ▸ hb)
      rw [hfind a List.mem_cons_self, hnil]
      rfl

omit [DecidableEq κ] in
theorem nodup_items (s : Keyed key) : s.items.Nodup :=
  s.distinct.imp fun hne heq ↦ hne (congrArg key heq)

/-- The first of the items with a key is the only one. -/
theorem head?_eq_find {s : Keyed key} {k : κ} {as : List α}
    (h : ∀ a, a ∈ as ↔ a ∈ s.items ∧ key a = k) : as.head? = s.find k := by
  cases as with
  | nil =>
      cases hfind : s.find k with
      | none => rfl
      | some a => exact absurd ((h a).2 (find_eq_some.1 hfind)) List.not_mem_nil
  | cons a as => exact (find_eq_some.2 ((h a).1 List.mem_cons_self)).symm

omit [DecidableEq κ] in
theorem filter_eq_self {p : α → Bool} (s : Keyed key) (h : ∀ a, p a = true) : s.filter p = s := by
  obtain ⟨items, hdistinct⟩ := s
  have hitems : items.filter p = items := List.filter_eq_self.2 fun a _ ↦ h a
  simp only [filter, hitems]

theorem find_insert (a : α) (s : Keyed key) (k : κ) :
    (s.insert a).find k = if key a = k then some a else s.find k := by
  ext b
  rw [find_eq_some]
  change b ∈ a :: s.items.filter _ ∧ _ ↔ _
  split
  · next h =>
      subst h
      constructor
      · rintro ⟨hb, hkey⟩
        rcases List.mem_cons.1 hb with rfl | hb
        · rfl
        · exact absurd hkey (of_decide_eq_true (List.mem_filter.1 hb).2)
      · rintro ⟨⟩
        exact ⟨List.mem_cons_self, rfl⟩
  · next h =>
      rw [find_eq_some]
      constructor
      · rintro ⟨hb, rfl⟩
        rcases List.mem_cons.1 hb with rfl | hb
        · exact absurd rfl h
        · exact ⟨(List.mem_filter.1 hb).1, rfl⟩
      · rintro ⟨hb, rfl⟩
        refine ⟨List.mem_cons_of_mem a (List.mem_filter.2 ⟨hb, ?_⟩), rfl⟩
        exact decide_eq_true (Ne.symm h)

theorem find_put (s : Keyed key) (a : α) (k : κ) :
    (s.put replaces a).find k = if key a = k then keep replaces (s.find k) a else s.find k := by
  unfold put
  split
  · next h =>
      rw [find_insert]
      split
      · next hk => rw [← hk, h, keep]
      · rfl
  · next old h =>
      by_cases hr : replaces a old = true
      · rw [if_pos hr, find_insert]
        split
        · next hk => rw [← hk, h, keep, if_pos hr]
        · rfl
      · rw [if_neg hr]
        split
        · next hk => rw [← hk, h, keep, if_neg hr]
        · rfl

/-- The item of a key is decided by the items that were entered under this key. -/
theorem find_foldl_put (s : Keyed key) (as : List α) (k : κ) :
    (as.foldl (put replaces) s).find k =
      (as.filter fun a ↦ key a = k).foldl (keep replaces) (s.find k) := by
  induction as generalizing s with
  | nil => rfl
  | cons a as ih =>
      rw [List.foldl_cons, ih, find_put, List.filter_cons]
      by_cases hk : key a = k
      · rw [if_pos hk, if_pos (decide_eq_true hk), List.foldl_cons]
      · rw [if_neg hk, if_neg (by simpa using hk)]

end Keyed

end ContextVM.Lib
