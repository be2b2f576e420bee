import StaticStyle.Proofs.Expression.Correspondence

/-!
# What evaluations are put together from

Evaluations are put together from answers, failures and one evaluation after another.  A property
that these keep (`Expression.Composes`) is one of the evaluation of every expression, if using
up a step and looking up a name have it (`Expression.Composes.evaluateWithin`).
-/

namespace StaticStyle.Expression

open StaticStyle.Evaluation

/-- A property of evaluations that is kept when they are put together. -/
structure Composes (P : ∀ α : Type, Evaluation α → Prop) : Prop where
  pure : ∀ {α : Type} (a : α), P α (pure a)
  throw : ∀ {α : Type} (fault : Malformation), P α (throw fault)
  bind : ∀ {α β : Type} {x : Evaluation α} {f : α → Evaluation β},
    P α x → (∀ a, P β (f a)) → P β (x >>= f)

namespace Composes

variable {P : ∀ α : Type, Evaluation α → Prop}

/-- A property is a relation in which the other evaluation has no part. -/
theorem corresponds (h : Composes P) : Corresponds (ι := Unit) fun α x _ => P α x where
  pure := h.pure
  throw := h.throw
  bind := h.bind

theorem evaluateWithin (h : Composes P) (hstep : P Unit step)
    (hlookUp : ∀ inner, (∀ e, P Value (inner e)) → ∀ name, P Value (lookUp inner name))
    (levels : Nat) (e : Expression) : P Value (evaluateWithin levels e) := by
  rw [← evaluateWithinBy_lookUp]
  induction levels generalizing e with
  | zero => exact h.corresponds.evaluateWithinBy_zero (fun _ => lookUp) hstep e e
  | succ levels ih =>
      exact h.corresponds.evaluateWithinBy (fun _ => lookUp) (fun _ => levels) hstep ih
        (hlookUp _ ih) e

end Composes

end StaticStyle.Expression
