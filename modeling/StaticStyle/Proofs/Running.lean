/-!
# Running computations that may fail

The operations of a build change a state and may fail, and they keep the state
they have reached when they fail.  The lemmas here run such an operation one
step at a time.  The result of a run is a pair: the answer or the error, and the
state after it.

`run_bind` is the one that matters.  After a failure the rest is left out, and
the state is the one that the failing step left behind.
-/

namespace StaticStyle.Running

variable {ε σ α β : Type}

theorem run_bind (x : ExceptT ε (StateM σ) α) (f : α → ExceptT ε (StateM σ) β) (s : σ) :
    (x >>= f).run s =
      match x.run s with
      | (.ok a, s') => (f a).run s'
      | (.error e, s') => (.error e, s') := by
  change ExceptT.bindCont f (x.run s).1 (x.run s).2 = _
  rcases x.run s with ⟨_ | _, s'⟩
  · rfl
  · rfl

theorem run_bind_of_ok {x : ExceptT ε (StateM σ) α} {s s' : σ} {a : α}
    (h : x.run s = (.ok a, s')) (f : α → ExceptT ε (StateM σ) β) :
    (x >>= f).run s = (f a).run s' := by
  rw [run_bind, h]

theorem run_bind_of_error {x : ExceptT ε (StateM σ) α} {s : σ} {e : ε}
    (h : (x.run s).1 = .error e) (f : α → ExceptT ε (StateM σ) β) :
    ((x >>= f).run s).1 = .error e := by
  rw [run_bind]
  rcases hx : x.run s with ⟨_ | _, s'⟩
  · rw [hx] at h
    cases h
    rfl
  · rw [hx] at h
    cases h

/-- What succeeds has succeeded at every step. -/
theorem exists_of_run_bind {x : ExceptT ε (StateM σ) α} {f : α → ExceptT ε (StateM σ) β}
    {s s' : σ} {b : β} (h : (x >>= f).run s = (.ok b, s')) :
    ∃ a s₁, x.run s = (.ok a, s₁) ∧ (f a).run s₁ = (.ok b, s') := by
  rw [run_bind] at h
  rcases hx : x.run s with ⟨_ | a, s₁⟩
  · rw [hx] at h
    cases h
  · rw [hx] at h
    exact ⟨a, s₁, rfl, h⟩

theorem run_map (f : α → β) (x : ExceptT ε (StateM σ) α) (s : σ) :
    (f <$> x).run s = ((x.run s).1.map f, (x.run s).2) := by
  rw [map_eq_pure_bind, run_bind]
  rcases x.run s with ⟨_ | _, s'⟩
  · rfl
  · rfl

theorem run_pure (a : α) (s : σ) : (pure a : ExceptT ε (StateM σ) α).run s = (.ok a, s) := rfl

theorem run_get (s : σ) : (get : ExceptT ε (StateM σ) σ).run s = (.ok s, s) := rfl

theorem run_modify (f : σ → σ) (s : σ) :
    (modify f : ExceptT ε (StateM σ) PUnit).run s = (.ok ⟨⟩, f s) := rfl

/-- What does not look at the state leaves it alone. -/
theorem run_lift (x : Except ε α) (s : σ) :
    (liftM x : ExceptT ε (StateM σ) α).run s = (x, s) := by
  cases x with
  | ok a => rfl
  | error e => rfl

/-! ## Known answers -/

/-- The run of something that is known to succeed. -/
theorem run_of_toOption {x : ExceptT ε (StateM σ) α} {s : σ} {a : α}
    (h : (x.run s).1.toOption = some a) : x.run s = (.ok a, (x.run s).2) := by
  rcases hx : x.run s with ⟨_ | _, s'⟩
  · rw [hx] at h
    cases h
  · rw [hx] at h
    cases h
    rfl

/-- The answer of something that is known to succeed, as far as it is known. -/
theorem exists_of_toOption {x : Except ε α} {f : α → β} {b : β}
    (h : x.toOption.map f = some b) : ∃ a, x = .ok a ∧ f a = b := by
  cases x with
  | error e => cases h
  | ok a => exact ⟨a, rfl, Option.some.inj h⟩

end StaticStyle.Running
