import StaticStyle.Proofs.Expression.Operands

/-!
# The levels of an evaluation

An expression takes as many levels as it nests deep, if the initial value of a constant stands one
level below each of its names (`Expression.Fits`).  Within that many levels an evaluation never
finds that it nests too deep (`Expression.shallow_of_fits`).  It may take fewer, because a value
that is kept takes none.

The order of the parts of an object has no say in this (`Expression.Fits.perm`).
-/

namespace StaticStyle.Expression

open StaticStyle.Evaluation

section

variable (locals : List (String × Value)) (constants : Constants)

/-- The expressions one level below an expression.  Below the name of a constant stands its initial
value. -/
def nextLevel : Expression → List Expression
  | .identifier name =>
      match locals.lookup name with
      | some _ => []
      | none => (constants.get? name).toList
  | e => e.operands

/-- An expression nests at most so many levels deep, the constants in it among them. -/
def Fits : (levels : Nat) → Expression → Prop
  | 0, _ => False
  | levels + 1, e => ∀ inner ∈ nextLevel locals constants e, Fits levels inner

instance decidableFits : ∀ levels e, Decidable (Fits locals constants levels e)
  | 0, _ => isFalse id
  | levels + 1, e =>
      haveI := decidableFits levels
      inferInstanceAs (Decidable (∀ inner ∈ nextLevel locals constants e, _))

/-- No evaluation of some kind finds that it nests too deep. -/
def Shallow {α : Type} (x : Evaluation α) : Prop :=
  ∀ resolving expired p,
    (x.run ⟨locals, constants, resolving, expired⟩).run p ≠ .error .tooDeep

end

section

variable {locals : List (String × Value)} {constants : Constants} {levels : Nat}

theorem nextLevel_identifier {name : String} (hlocal : locals.lookup name = none) :
    nextLevel locals constants (.identifier name) = (constants.get? name).toList := by
  simp only [nextLevel, hlocal]

theorem operands_subset_nextLevel (e : Expression) : e.operands ⊆ nextLevel locals constants e := by
  cases e with
  | identifier name => exact List.nil_subset _
  | _ => exact List.Subset.refl _

/-- The parts of an object nest as deep in any other order. -/
theorem Fits.perm {parts parts' : List (Part Expression)} (hperm : parts.Perm parts')
    (h : Fits locals constants levels (.object parts)) :
    Fits locals constants levels (.object parts') := by
  cases levels with
  | zero => exact h
  | succ levels =>
      intro inner hinner
      exact h inner ((hperm.flatMap_right Part.operands).mem_iff.mpr hinner)

theorem accumulates_shallow (locals : List (String × Value)) (constants : Constants) :
    Accumulates fun _ _ x => Shallow locals constants x where
  pure := by
    intro α a resolving expired p hrun
    cases hrun
  throw := by
    intro α fault _ hfault resolving expired p hrun
    exact hfault (Except.error.inj hrun)
  bind := by
    intro α β _ _ x f hx hf resolving expired p hrun
    rw [bind_run] at hrun
    rcases hfirst : (x.run ⟨locals, constants, resolving, expired⟩).run p with fault | ⟨a, p'⟩
    · rw [hfirst] at hrun
      cases hrun
      exact hx resolving expired p hfirst
    · rw [hfirst] at hrun
      exact hf a resolving expired p' hrun
  mono := fun _ hx => hx

theorem shallow_step : Shallow locals constants step := by
  intro resolving expired p hrun
  rw [step_run] at hrun
  split at hrun
  · cases hrun
  · cases hrun

theorem shallow_lookUp {inner : Expression → Evaluation Value} {name : String}
    (hinner : ∀ initial ∈ nextLevel locals constants (.identifier name),
      Shallow locals constants (inner initial)) :
    Shallow locals constants (lookUp inner name) := by
  intro resolving expired p
  rw [lookUp_run]
  dsimp only
  cases hlocal : locals.lookup name with
  | some value => nofun
  | none =>
      rw [nextLevel_identifier hlocal] at hinner
      rcases p.known.lookup name with _ | value
      · cases hget : constants.get? name with
        | none => nofun
        | some initial =>
            dsimp only
            split
            · nofun
            · rw [hget] at hinner
              have hinitial := hinner initial (List.mem_singleton_self initial)
                (name :: resolving) expired p
              rcases hfound : ((inner initial).run
                ⟨locals, constants, name :: resolving, expired⟩).run p with fault | pair
              · rw [hfound] at hinitial
                exact fun h => hinitial (congrArg _ (Except.error.inj h))
              · nofun
      · nofun

/-- An expression that nests at most so many levels deep never nests too deep for them. -/
theorem shallow_of_fits {e : Expression} (h : Fits locals constants levels e) :
    Shallow locals constants (evaluateWithin levels e) := by
  induction levels generalizing e with
  | zero => exact h.elim
  | succ levels ih =>
      have hshallow := accumulates_shallow locals constants
      refine hshallow.bind (m := 0) (n := 0) shallow_step ?_
      intro _
      refine hshallow.evaluateNode (fun _ => 0) ?_ ?_
      · intro o ho
        exact ih (h o (operands_subset_nextLevel e ho))
      · rintro name rfl
        exact shallow_lookUp fun initial hinitial => ih (h initial hinitial)

theorem evaluate_ne_tooDeep_of_fits {e : Expression}
    (h : Fits locals constants maxNesting e) (limits : Limits) :
    evaluate e locals constants limits ≠ .error .tooDeep := by
  intro hdeep
  rw [evaluate_eq] at hdeep
  rcases hrun : ((evaluateWithin maxNesting e).run
    ⟨locals, constants, [], limits.timeoutMs == 0⟩).run ⟨limits.maxSteps, []⟩ with fault | pair
  · rw [hrun] at hdeep
    cases hdeep
    exact shallow_of_fits h [] _ _ hrun
  · rw [hrun] at hdeep
    cases hdeep

end

end StaticStyle.Expression
