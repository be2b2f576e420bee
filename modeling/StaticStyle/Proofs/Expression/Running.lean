import StaticStyle.Expression.Evaluation

/-!
# Running evaluations

An evaluation runs among surroundings that it can read, from a state of progress that it can
change, and may fail.  The lemmas here run one a step at a time.  Nothing is caught: what
fails at some step fails altogether (`Evaluation.bind_run`).
-/

namespace StaticStyle.Evaluation

variable {α β : Type}

theorem bind_run (x : Evaluation α) (f : α → Evaluation β) (s : Surroundings) (p : Progress) :
    ((x >>= f).run s).run p =
      match (x.run s).run p with
      | .ok (a, p') => ((f a).run s).run p'
      | .error fault => .error fault := by
  change Except.bind ((x.run s).run p) (fun pair => ((f pair.1).run s).run pair.2) = _
  cases (x.run s).run p with
  | error fault => rfl
  | ok pair => rfl

theorem pure_run (a : α) (s : Surroundings) (p : Progress) :
    ((pure a : Evaluation α).run s).run p = .ok (a, p) := rfl

theorem read_run (s : Surroundings) (p : Progress) :
    ((read : Evaluation Surroundings).run s).run p = .ok (s, p) := rfl

theorem get_run (s : Surroundings) (p : Progress) :
    ((get : Evaluation Progress).run s).run p = .ok (p, p) := rfl

theorem withReader_run (f : Surroundings → Surroundings) (x : Evaluation α) (s : Surroundings)
    (p : Progress) : ((withReader f x).run s).run p = (x.run (f s)).run p := rfl

theorem lift_run (x : Except Malformation α) (s : Surroundings) (p : Progress) :
    ((liftM x : Evaluation α).run s).run p = x.map fun a => (a, p) := by
  cases x with
  | error fault => rfl
  | ok a => rfl

/-- What succeeds has succeeded at every step. -/
theorem exists_of_bind_run {x : Evaluation α} {f : α → Evaluation β} {s : Surroundings}
    {p p' : Progress} {b : β} (h : ((x >>= f).run s).run p = .ok (b, p')) :
    ∃ a p₁, (x.run s).run p = .ok (a, p₁) ∧ ((f a).run s).run p₁ = .ok (b, p') := by
  rw [bind_run] at h
  rcases hx : (x.run s).run p with fault | ⟨a, p₁⟩
  · rw [hx] at h
    cases h
  · rw [hx] at h
    exact ⟨a, p₁, rfl, h⟩

/-- The answer of a run without what the run has used up and found out. -/
theorem map_fst_eq_ok {result : Except Malformation (α × Progress)} {a : α} :
    result.map Prod.fst = .ok a ↔ ∃ p, result = .ok (a, p) := by
  rcases result with fault | ⟨found, p⟩
  · simp [Except.map]
  · simp [Except.map]

end StaticStyle.Evaluation

/-! ## Progress -/

namespace StaticStyle.Progress

/-- The value of a constant is known from now on. -/
def keep (p : Progress) (name : String) (value : Value) : Progress :=
  { p with known := (name, value) :: p.known }

theorem lookup_keep (p : Progress) (name other : String) (value : Value) :
    (p.keep name value).known.lookup other =
      if other = name then some value else p.known.lookup other := by
  unfold keep
  rw [List.lookup_cons]
  split
  · rename_i hsame
    rw [if_pos (eq_of_beq hsame)]
  · rename_i hother
    rw [if_neg (ne_of_beq_false hother)]

theorem lookup_keep_eq_some {p : Progress} {name other : String} {value found : Value} :
    (p.keep name value).known.lookup other = some found ↔
      (other = name ∧ value = found) ∨ (other ≠ name ∧ p.known.lookup other = some found) := by
  rw [lookup_keep]
  by_cases hsame : other = name
  · simp [hsame]
  · simp [hsame]

theorem lookup_keep_eq_none {p : Progress} {name other : String} {value : Value} :
    (p.keep name value).known.lookup other = none ↔
      other ≠ name ∧ p.known.lookup other = none := by
  rw [lookup_keep]
  by_cases hsame : other = name
  · simp [hsame]
  · simp [hsame]

end StaticStyle.Progress

/-! ## Steps and names -/

namespace StaticStyle.Expression

open StaticStyle.Evaluation

theorem step_run (s : Surroundings) (p : Progress) :
    (step.run s).run p =
      if p.budget = 0 || s.expired then .error .timedOut
      else .ok (⟨⟩, { p with budget := p.budget - 1 }) := by
  unfold step
  rw [bind_run, get_run]
  dsimp only
  rw [bind_run, read_run]
  dsimp only
  split
  · rfl
  · rfl

theorem step_run_eq_ok {s : Surroundings} {p p' : Progress} {u : Unit} :
    (step.run s).run p = .ok (u, p') ↔
      0 < p.budget ∧ s.expired = false ∧ p' = { p with budget := p.budget - 1 } := by
  rw [step_run]
  split
  · rename_i hspent
    rw [Bool.or_eq_true, decide_eq_true_eq] at hspent
    refine ⟨fun h => (nomatch h), ?_⟩
    rintro ⟨hbudget, hexpired, -⟩
    rcases hspent with hspent | hspent
    · omega
    · rw [hexpired] at hspent
      cases hspent
  · rename_i hleft
    rw [Bool.or_eq_true, decide_eq_true_eq, not_or, Bool.not_eq_true] at hleft
    constructor
    · intro h
      cases h
      exact ⟨Nat.pos_of_ne_zero hleft.1, hleft.2, rfl⟩
    · rintro ⟨-, -, rfl⟩
      rfl

/-- A name stands for its local value, or for the value of its constant, which is worked out and
kept if it is not known yet. -/
theorem lookUp_run (inner : Expression → Evaluation Value) (name : String) (s : Surroundings)
    (p : Progress) :
    ((lookUp inner name).run s).run p =
      match s.locals.lookup name, p.known.lookup name, s.constants.get? name with
      | some value, _, _ => .ok (value, p)
      | none, some value, _ => .ok (value, p)
      | none, none, none => .error (.unresolved name)
      | none, none, some initial =>
          if name ∈ s.resolving then .error (.circular name)
          else (((inner initial).run { s with resolving := name :: s.resolving }).run p).map
            fun pair => (pair.1, pair.2.keep name pair.1) := by
  unfold lookUp
  rw [bind_run, read_run]
  dsimp only
  rcases s.locals.lookup name with _ | value
  · dsimp only
    rw [bind_run, get_run]
    dsimp only
    rcases p.known.lookup name with _ | value
    · rcases s.constants.get? name with _ | initial
      · rfl
      · dsimp only
        unfold resolve
        rw [bind_run, read_run]
        dsimp only
        simp only [List.contains_eq_mem, decide_eq_true_eq]
        split
        · rfl
        · rw [bind_run, withReader_run]
          rcases ((inner initial).run _).run p with fault | ⟨value, p'⟩
          · rfl
          · rfl
    · rfl
  · rfl

/-- The ways in which a name has a value. -/
theorem lookUp_run_eq_ok {inner : Expression → Evaluation Value} {name : String}
    {s : Surroundings} {p p' : Progress} {value : Value} :
    ((lookUp inner name).run s).run p = .ok (value, p') ↔
      (s.locals.lookup name = some value ∧ p = p') ∨
        (s.locals.lookup name = none ∧ p.known.lookup name = some value ∧ p = p') ∨
        (s.locals.lookup name = none ∧ p.known.lookup name = none ∧
          ∃ initial p₁, s.constants.get? name = some initial ∧ name ∉ s.resolving ∧
            ((inner initial).run { s with resolving := name :: s.resolving }).run p =
              .ok (value, p₁) ∧ p₁.keep name value = p') := by
  rw [lookUp_run]
  rcases s.locals.lookup name with _ | found
  · rcases p.known.lookup name with _ | found
    · rcases s.constants.get? name with _ | initial
      · simp
      · by_cases hname : name ∈ s.resolving
        · simp [hname]
        · rcases hrun : ((inner initial).run { s with resolving := name :: s.resolving }).run p
            with fault | ⟨found, p₁⟩
          · simp [hname, hrun, Except.map]
          · simp only [if_neg hname, Except.map, hrun]
            grind
    · simp
  · simp

/-- An evaluation starts with all of its budget and with no value kept. -/
theorem evaluate_eq (e : Expression) (locals : List (String × Value)) (constants : Constants)
    (limits : Limits) :
    evaluate e locals constants limits =
      (((evaluateWithin maxNesting e).run ⟨locals, constants, [], limits.timeoutMs == 0⟩).run
        ⟨limits.maxSteps, []⟩).map Prod.fst := rfl

end StaticStyle.Expression
