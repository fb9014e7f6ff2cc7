import Mathlib.Data.List.Basic

/-!
# Several readers of one log

Entries of a log are known by their places.  A reader is known by the place of the entry it is
at: the entries before it are done with, the others are still to come for it.  Some entries are
relevant, and the reader that is at a relevant entry delivers it when it goes on.

`Exclusive` says that every relevant entry is still to come for at most one reader, and for none
if it has been delivered.  It is an invariant as long as a relevant entry is added only when
there is at most one reader, and then no entry is delivered twice.
-/

namespace ContextVM.Lib

variable {relevant relevant' : Nat → Prop} {readers delivered : List Nat}

structure Exclusive (relevant : Nat → Prop) (readers delivered : List Nat) : Prop where
  unique : ∀ i j m n k : Nat, readers[i]? = some m → readers[j]? = some n → m ≤ k → n ≤ k →
    relevant k → i = j
  fresh : ∀ n ∈ readers, ∀ k, n ≤ k → relevant k → k ∉ delivered
  nodup : delivered.Nodup

namespace Exclusive

theorem nil : Exclusive relevant [] [] where
  unique := by simp
  fresh := by simp
  nodup := .nil

/-- A reader goes on. -/
theorem skip (h : Exclusive relevant readers delivered) {i n : Nat}
    (hi : readers[i]? = some n) : Exclusive relevant (readers.set i (n + 1)) delivered := by
  -- where a reader is after the step, it was there or one entry before
  have hold : ∀ j m : Nat, (readers.set i (n + 1))[j]? = some m →
      ∃ m₀, readers[j]? = some m₀ ∧ m₀ ≤ m := by
    intro j m hj
    rw [List.getElem?_set] at hj
    split at hj
    · next hij =>
        subst hij
        split at hj
        · cases hj
          exact ⟨n, hi, Nat.le_succ n⟩
        · cases hj
    · exact ⟨m, hj, Nat.le_refl m⟩
  constructor
  · intro j j' m m' k hj hj' hm hm' hk
    obtain ⟨m₀, hm₀, hle⟩ := hold j m hj
    obtain ⟨m₀', hm₀', hle'⟩ := hold j' m' hj'
    exact h.unique j j' m₀ m₀' k hm₀ hm₀' (Nat.le_trans hle hm)
      (Nat.le_trans hle' hm') hk
  · intro m hm k hk hrel
    obtain ⟨j, hj⟩ := List.mem_iff_getElem?.1 hm
    obtain ⟨m₀, hm₀, hle⟩ := hold j m hj
    exact h.fresh m₀ (List.mem_of_getElem? hm₀) k (Nat.le_trans hle hk) hrel
  · exact h.nodup

/-- A reader delivers the entry that it is at, and goes on. -/
theorem deliver (h : Exclusive relevant readers delivered) {i n : Nat}
    (hi : readers[i]? = some n) (hn : relevant n) :
    Exclusive relevant (readers.set i (n + 1)) (n :: delivered) := by
  have hskip := h.skip hi
  refine ⟨hskip.unique, ?_, ?_⟩
  · intro m hm k hk hrel
    rw [List.mem_cons, not_or]
    refine ⟨?_, hskip.fresh m hm k hk hrel⟩
    rintro rfl
    -- another reader before the entry, beside the one that delivers it
    obtain ⟨j, hj⟩ := List.mem_iff_getElem?.1 hm
    rw [List.getElem?_set] at hj
    split at hj
    · split at hj
      · cases hj
        omega
      · cases hj
    · next hij => exact hij (h.unique i j k m k hi hj (Nat.le_refl k) hk hrel)
  · exact List.nodup_cons.2
      ⟨h.fresh n (List.mem_of_getElem? hi) n (Nat.le_refl n) hn, h.nodup⟩

/-- A reader joins at the end of the log. -/
theorem join (h : Exclusive relevant readers delivered) {len : Nat}
    (hlen : ∀ k, relevant k → k < len) : Exclusive relevant (readers ++ [len]) delivered := by
  have hold : ∀ j m k : Nat, (readers ++ [len])[j]? = some m → m ≤ k → relevant k →
      readers[j]? = some m := by
    intro j m k hj hm hk
    rw [List.getElem?_append] at hj
    split at hj
    · exact hj
    · have hmem := List.mem_of_getElem? hj
      obtain rfl := List.mem_singleton.1 hmem
      exact absurd (hlen k hk) (Nat.not_lt_of_le hm)
  constructor
  · intro j j' m m' k hj hj' hm hm' hk
    exact h.unique j j' m m' k (hold j m k hj hm hk) (hold j' m' k hj' hm' hk) hm hm' hk
  · intro m hm k hk hrel
    obtain ⟨j, hj⟩ := List.mem_iff_getElem?.1 hm
    exact h.fresh m (List.mem_of_getElem? (hold j m k hj hk hrel)) k hk hrel
  · exact h.nodup

/-- An entry is added to the log: if it is relevant, there is at most one reader. -/
theorem grow (h : Exclusive relevant readers delivered) {len : Nat}
    (hdelivered : ∀ k ∈ delivered, k < len)
    (hgrow : ∀ k, relevant' k → relevant k ∨ k = len ∧ readers.length ≤ 1) :
    Exclusive relevant' readers delivered := by
  constructor
  · intro i j m n k hi hj hm hn hk
    rcases hgrow k hk with hk | ⟨-, hlen⟩
    · exact h.unique i j m n k hi hj hm hn hk
    · obtain ⟨hi, -⟩ := List.getElem?_eq_some_iff.1 hi
      obtain ⟨hj, -⟩ := List.getElem?_eq_some_iff.1 hj
      omega
  · intro n hn k hk hrel
    rcases hgrow k hrel with hrel | ⟨rfl, -⟩
    · exact h.fresh n hn k hk hrel
    · exact fun hmem ↦ Nat.lt_irrefl k (hdelivered k hmem)
  · exact h.nodup

end Exclusive

end ContextVM.Lib
