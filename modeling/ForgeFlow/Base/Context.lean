import Mathlib.Tactic.Common

/-!
# Contexts

A context of Go's `context` package, by how it was derived. It is done once its own
cancel function, or one of a context it was derived from, has been called.
-/

namespace ForgeFlow.Base

inductive Context (κ : Type) where
  /-- A context handed in, with the cancel function of whoever made it. -/
  | outside (key : κ)
  | withCancel (parent : Context κ) (key : κ)
  | withValue (parent : Context κ)
  deriving DecidableEq

namespace Context

variable {κ : Type} {called : κ → Bool}

def done (called : κ → Bool) : Context κ → Bool
  | outside key => called key
  | withCancel parent key => called key || parent.done called
  | withValue parent => parent.done called

/-- The context was derived from the other one. -/
inductive Descends (ancestor : Context κ) : Context κ → Prop
  | refl : Descends ancestor ancestor
  | withCancel {parent : Context κ} (key : κ) (h : Descends ancestor parent) :
    Descends ancestor (parent.withCancel key)
  | withValue {parent : Context κ} (h : Descends ancestor parent) : Descends ancestor parent.withValue

/-- Canceling a context cancels everything derived from it. -/
theorem Descends.done {ancestor context : Context κ} (h : ancestor.Descends context)
    (ha : ancestor.done called = true) : context.done called = true := by
  induction h with
  | refl => exact ha
  | withCancel key _ ih => rw [Context.done, ih, Bool.or_true]
  | withValue _ ih => exact ih

end Context

end ForgeFlow.Base
