import StaticStyle.Proofs.Expression.Composition

/-!
# Names without a constant

What an evaluation makes of a name for which there is neither a local value nor a constant.  If
it comes to the name, it fails for want of it.  If it does not, a constant of that name would
make no difference (`Expression.evaluate_eq_or`).
-/

namespace StaticStyle.Expression

open StaticStyle.Evaluation

variable {name : String} {constants constants' : Constants} {α : Type}

/-- Tables of constants that differ at one name only. -/
def DifferAt (name : String) (constants constants' : Constants) : Prop :=
  ∀ other, other ≠ name → constants'.get? other = constants.get? other

theorem differAt_put (name : String) (initial : Expression) (constants : Constants) :
    DifferAt name constants (constants.put name initial) := by
  intro other hother
  rw [Table.get?_put, if_neg hother.symm]

/-- Without a constant of a name, an evaluation fails for want of it, or it gives what it would
give with any constant of that name. -/
def Spares (name : String) (x : Evaluation α) : Prop :=
  ∀ (s : Surroundings) (p : Progress) (constants : Constants), s.constants.get? name = none →
    DifferAt name s.constants constants →
      (x.run s).run p = .error (.unresolved name) ∨
        (x.run { s with constants }).run p = (x.run s).run p

theorem composes_spares (name : String) : Composes fun _ x => Spares name x where
  pure := by
    intro α a s p constants hnone hdiffer
    exact Or.inr rfl
  throw := by
    intro α fault s p constants hnone hdiffer
    exact Or.inr rfl
  bind := by
    intro α β x f hx hf s p constants hnone hdiffer
    rw [bind_run, bind_run]
    rcases hx s p constants hnone hdiffer with hfault | hsame
    · rw [hfault]
      exact Or.inl rfl
    · rw [hsame]
      rcases (x.run s).run p with fault | ⟨a, p'⟩
      · exact Or.inr rfl
      · exact hf a s p' constants hnone hdiffer

theorem spares_step (name : String) : Spares name step := by
  intro s p constants hnone hdiffer
  rw [step_run, step_run]
  exact Or.inr rfl

theorem spares_lookUp {inner : Expression → Evaluation Value}
    (hinner : ∀ e, Spares name (inner e)) (other : String) : Spares name (lookUp inner other) := by
  intro s p constants hnone hdiffer
  rw [lookUp_run, lookUp_run]
  dsimp only
  rcases s.locals.lookup other with _ | value
  · rcases p.known.lookup other with _ | value
    · by_cases hsame : other = name
      · subst hsame
        rw [hnone]
        exact Or.inl rfl
      · rw [hdiffer other hsame]
        rcases s.constants.get? other with _ | initial
        · exact Or.inr rfl
        · dsimp only
          split
          · exact Or.inr rfl
          · -- The initial value is worked out among the same constants.
            rcases hinner initial { s with resolving := other :: s.resolving } p constants hnone
              hdiffer with hfault | halike
            · rw [hfault]
              exact Or.inl rfl
            · rw [halike]
              exact Or.inr rfl
    · exact Or.inr rfl
  · exact Or.inr rfl

theorem spares_evaluateWithin (name : String) (levels : Nat) (e : Expression) :
    Spares name (evaluateWithin levels e) :=
  (composes_spares name).evaluateWithin (spares_step name) (fun _ hinner => spares_lookUp hinner)
    levels e

/-- An evaluation that comes to a name without a local value or a constant fails for want of it,
and any other gives what it would give with any constant of that name. -/
theorem evaluate_eq_or (hnone : constants.get? name = none)
    (hdiffer : DifferAt name constants constants') (e : Expression)
    (locals : List (String × Value)) (limits : Limits) :
    evaluate e locals constants limits = .error (.unresolved name) ∨
      evaluate e locals constants' limits = evaluate e locals constants limits := by
  rw [evaluate_eq, evaluate_eq]
  rcases spares_evaluateWithin name maxNesting e ⟨locals, constants, [], limits.timeoutMs == 0⟩
    ⟨limits.maxSteps, []⟩ constants' hnone hdiffer with hfault | hsame
  · rw [hfault]
    exact Or.inl rfl
  · rw [hsame]
    exact Or.inr rfl

end StaticStyle.Expression
