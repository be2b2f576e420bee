import StaticStyle.Proofs.Expression.Operands
import StaticStyle.Proofs.Expression.Outstanding

/-!
# The steps of an evaluation

An evaluation takes a certain number of steps, whatever its budget is.  With a budget of so many
steps or more its result is always the same, and with fewer it has no time
(`Expression.evaluate_threshold`).

The number of steps is at most the number of nodes of the expression and of the initial values of
the constants: the nodes of the constants that are outstanding pay for the steps that names take
(`Expression.spends_lookUp`).
-/

namespace StaticStyle.Expression

open StaticStyle.Evaluation

/-! ## Nodes -/

mutual

/-- The number of expressions in an expression, itself among them. -/
def nodes : Expression → Nat
  | .undefined => 1
  | .null => 1
  | .boolean _ => 1
  | .number _ => 1
  | .string _ => 1
  | .template _ parts => 1 + nodesOfAll parts
  | .array items => 1 + nodesOfAll items
  | .object parts => 1 + nodesOfParts parts
  | .identifier _ => 1
  | .member owner key => 1 + (owner.nodes + nodesOfKey key)
  | .conditional test whenTrue whenFalse => 1 + (test.nodes + (whenTrue.nodes + whenFalse.nodes))
  | .unary _ operand => 1 + operand.nodes
  | .binary _ left right => 1 + (left.nodes + right.nodes)
  | .logical _ left right => 1 + (left.nodes + right.nodes)

/-- The number of expressions in a list of expressions. -/
def nodesOfAll : List Expression → Nat
  | [] => 0
  | e :: rest => e.nodes + nodesOfAll rest

/-- The number of expressions in the parts of an object. -/
def nodesOfParts : List (Part Expression) → Nat
  | [] => 0
  | part :: rest => nodesOfPart part + nodesOfParts rest

/-- The number of expressions in a part of an object. -/
def nodesOfPart : Part Expression → Nat
  | .entry key value => nodesOfKey key + value.nodes
  | .spread e => e.nodes

/-- The number of expressions in a key. -/
def nodesOfKey : Key Expression → Nat
  | .fixed _ => 0
  | .computed e => e.nodes

end

theorem nodesOfAll_eq_sum (items : List Expression) :
    nodesOfAll items = (items.map nodes).sum := by
  induction items with
  | nil => rfl
  | cons e rest ih => rw [nodesOfAll, ih, List.map_cons, List.sum_cons]

theorem nodesOfKey_eq_sum (key : Key Expression) :
    nodesOfKey key = (key.operands.map nodes).sum := by
  cases key with
  | fixed text => rfl
  | computed e => rfl

theorem nodesOfPart_eq_sum (part : Part Expression) :
    nodesOfPart part = (part.operands.map nodes).sum := by
  cases part with
  | entry key e =>
      rw [nodesOfPart, Part.operands, List.map_append, List.sum_append, nodesOfKey_eq_sum]
      rfl
  | spread e => rfl

theorem nodesOfParts_eq_sum (parts : List (Part Expression)) :
    nodesOfParts parts = ((parts.flatMap Part.operands).map nodes).sum := by
  induction parts with
  | nil => rfl
  | cons part rest ih =>
      rw [nodesOfParts, ih, nodesOfPart_eq_sum, List.flatMap_cons, List.map_append,
        List.sum_append]

/-- An expression has one node more than its operands. -/
theorem nodes_eq (e : Expression) : e.nodes = 1 + (e.operands.map nodes).sum := by
  cases e with
  | template texts parts => rw [nodes, nodesOfAll_eq_sum, operands]
  | array items => rw [nodes, nodesOfAll_eq_sum, operands]
  | object parts => rw [nodes, nodesOfParts_eq_sum, operands]
  | member owner key =>
      rw [nodes, nodesOfKey_eq_sum, operands, List.map_cons, List.sum_cons]
  | _ => simp [nodes, operands]

theorem one_le_nodes (e : Expression) : 1 ≤ e.nodes := by
  rw [nodes_eq]
  exact Nat.le_add_right 1 _

/-! ## Thresholds -/

/-- What becomes of an evaluation: its answer with the values that are kept then, or a fault. -/
abbrev Outcome (α : Type) := Except Malformation (α × List (String × Value))

/-- What an evaluation comes to that takes so many steps. -/
def Outcome.within {α : Type} (outcome : Outcome α) (cost budget : Nat) :
    Except Malformation (α × Progress) :=
  if cost ≤ budget then outcome.map fun pair => (pair.1, ⟨budget - cost, pair.2⟩)
  else .error .timedOut

theorem Outcome.within_error {α : Type} (fault : Malformation) (cost budget : Nat) :
    Outcome.within (.error fault : Outcome α) cost budget =
      .error (if cost ≤ budget then fault else .timedOut) := by
  unfold Outcome.within
  split
  · rfl
  · rfl

/-- A value may be kept when an evaluation has succeeded. -/
theorem Outcome.within_keep {value : Value} {known : List (String × Value)} (name : String)
    (cost budget : Nat) :
    (Outcome.within (.ok (value, known)) cost budget).map
        (fun pair => (pair.1, pair.2.keep name pair.1)) =
      Outcome.within (.ok (value, (name, value) :: known)) cost budget := by
  unfold Outcome.within
  split
  · rfl
  · rfl

section

variable {α β : Type} {s : Surroundings} {known known₁ : List (String × Value)}

/-- One evaluation after another takes the steps of both. -/
theorem bind_run_within {x : Evaluation α} {f : α → Evaluation β} {a : α} {outcome : Outcome β}
    {cost cost' : Nat}
    (hx : ∀ budget, (x.run s).run ⟨budget, known⟩ = Outcome.within (.ok (a, known₁)) cost budget)
    (hf : ∀ budget, ((f a).run s).run ⟨budget, known₁⟩ = outcome.within cost' budget)
    (budget : Nat) :
    ((x >>= f).run s).run ⟨budget, known⟩ = outcome.within (cost + cost') budget := by
  rw [bind_run, hx]
  by_cases hbudget : cost ≤ budget
  · have hfirst : Outcome.within (.ok (a, known₁)) cost budget =
        .ok (a, ⟨budget - cost, known₁⟩) := if_pos hbudget
    rw [hfirst]
    dsimp only
    rw [hf (budget - cost)]
    unfold Outcome.within
    by_cases hrest : cost' ≤ budget - cost
    · rw [if_pos hrest, if_pos (by omega), Nat.sub_sub]
    · rw [if_neg hrest, if_neg (by omega)]
  · have hfirst : Outcome.within (.ok (a, known₁)) cost budget = .error .timedOut :=
      if_neg hbudget
    rw [hfirst]
    exact (if_neg (by omega)).symm

theorem step_run_within (hexpired : s.expired = false) (budget : Nat) :
    (step.run s).run ⟨budget, known⟩ = Outcome.within (.ok (⟨⟩, known)) 1 budget := by
  rw [step_run, hexpired, Bool.or_false]
  unfold Outcome.within
  by_cases hbudget : budget = 0
  · subst hbudget
    rfl
  · rw [if_neg (by simpa using hbudget), if_pos (by omega)]
    rfl

end

/-- What is outstanding in the end, if there is an answer. -/
def Outcome.outstanding {α : Type} (outcome : Outcome α) (constants : Constants)
    (resolving : List String) : Nat :=
  match outcome with
  | .ok (_, known) => Expression.outstanding nodes constants known resolving
  | .error _ => 0

/-- An evaluation takes a certain number of steps to its outcome.  There are no more than so many
beside those that the outstanding constants pay for. -/
def Spends (n : Nat) (α : Type) (x : Evaluation α) : Prop :=
  ∀ (s : Surroundings) (known : List (String × Value)), s.expired = false →
    ∃ (cost : Nat) (outcome : Outcome α), outcome ≠ .error .timedOut ∧
      cost + outcome.outstanding s.constants s.resolving ≤
        n + outstanding nodes s.constants known s.resolving ∧
      ∀ budget, (x.run s).run ⟨budget, known⟩ = outcome.within cost budget

section

variable {α β : Type}

theorem spends_pure (a : α) : Spends 0 α (pure a) := by
  intro s known _
  refine ⟨0, .ok (a, known), nofun, Nat.le_refl _, ?_⟩
  intro budget
  rfl

theorem spends_throw {fault : Malformation} (h : fault ≠ .timedOut) :
    Spends 0 α (throw fault) := by
  intro s known _
  refine ⟨0, .error fault, fun hfault => h (Except.error.inj hfault), Nat.zero_le _, ?_⟩
  intro budget
  rfl

theorem spends_bind {m n : Nat} {x : Evaluation α} {f : α → Evaluation β} (hx : Spends m α x)
    (hf : ∀ a, Spends n β (f a)) : Spends (m + n) β (x >>= f) := by
  intro s known hexpired
  obtain ⟨cost, outcome, hfault, hcost, hrun⟩ := hx s known hexpired
  rcases outcome with fault | ⟨a, known₁⟩
  · refine ⟨cost, .error fault, fun h => hfault (congrArg _ (Except.error.inj h)), ?_, ?_⟩
    · have hle : cost + 0 ≤ m + outstanding nodes s.constants known s.resolving := hcost
      change cost + 0 ≤ _
      omega
    · intro budget
      rw [bind_run, hrun, Outcome.within_error, Outcome.within_error]
  · obtain ⟨cost', outcome', hfault', hcost', hrun'⟩ := hf a s known₁ hexpired
    refine ⟨cost + cost', outcome', hfault', ?_, ?_⟩
    · have hle : cost + outstanding nodes s.constants known₁ s.resolving ≤
          m + outstanding nodes s.constants known s.resolving := hcost
      omega
    · exact bind_run_within hrun hrun'

theorem accumulates_spends : Accumulates Spends where
  pure := spends_pure
  throw := fun h _ => spends_throw h
  bind := spends_bind
  mono := by
    intro α m n x hle hx s known hexpired
    obtain ⟨cost, outcome, hfault, hcost, hrun⟩ := hx s known hexpired
    exact ⟨cost, outcome, hfault, by omega, hrun⟩

theorem spends_step : Spends 1 Unit step := by
  intro s known hexpired
  exact ⟨1, .ok (⟨⟩, known), nofun, Nat.le_refl _, step_run_within hexpired⟩

/-- The nodes of a constant pay for the steps that it takes to work it out. -/
theorem spends_initial {inner : Expression → Evaluation Value} {name : String}
    {initial : Expression} {s : Surroundings} {known : List (String × Value)}
    (hinitial : Spends initial.nodes Value (inner initial)) (hexpired : s.expired = false)
    (hget : s.constants.get? name = some initial) (hunknown : known.lookup name = none)
    (hfresh : name ∉ s.resolving) :
    ∃ (cost : Nat) (outcome : Outcome Value), outcome ≠ .error .timedOut ∧
      cost + outcome.outstanding s.constants s.resolving ≤
        outstanding nodes s.constants known s.resolving ∧
      ∀ budget, (((inner initial).run { s with resolving := name :: s.resolving }).run
          ⟨budget, known⟩).map (fun pair => (pair.1, pair.2.keep name pair.1)) =
        outcome.within cost budget := by
  obtain ⟨cost, outcome, hfault, hcost, hrun⟩ :=
    hinitial { s with resolving := name :: s.resolving } known hexpired
  have hpaid := weight_add_outstanding_le nodes hget hunknown hfresh
  have hle := Nat.le_trans hcost hpaid
  rcases outcome with fault | ⟨value, known₁⟩
  · refine ⟨cost, .error fault, fun h => hfault (congrArg _ (Except.error.inj h)), hle, ?_⟩
    intro budget
    rw [hrun, Outcome.within_error]
    rfl
  · refine ⟨cost, .ok (value, (name, value) :: known₁), nofun, ?_, ?_⟩
    · -- The value that is kept makes up for the constant that is not being worked out any more.
      change cost + outstanding nodes s.constants ((name, value) :: known₁) s.resolving ≤ _
      rw [outstanding_keep]
      exact hle
    · intro budget
      rw [hrun, Outcome.within_keep]

theorem spends_lookUp {inner : Expression → Evaluation Value}
    (hinner : ∀ e, Spends e.nodes Value (inner e)) (name : String) :
    Spends 0 Value (lookUp inner name) := by
  intro s known hexpired
  simp only [lookUp_run]
  rcases s.locals.lookup name with _ | value
  · cases hunknown : known.lookup name with
    | some value => exact spends_pure value s known hexpired
    | none =>
        cases hget : s.constants.get? name with
        | none =>
            have hfault : Malformation.unresolved name ≠ .timedOut := nofun
            exact spends_throw hfault s known hexpired
        | some initial =>
            by_cases hresolving : name ∈ s.resolving
            · simp only [if_pos hresolving]
              have hfault : Malformation.circular name ≠ .timedOut := nofun
              exact spends_throw hfault s known hexpired
            · simp only [if_neg hresolving, Nat.zero_add]
              exact spends_initial (hinner initial) hexpired hget hunknown hresolving
  · exact spends_pure value s known hexpired

/-- An evaluation takes no more steps than the expression and the outstanding constants have
nodes. -/
theorem spends_evaluateWithin (levels : Nat) (e : Expression) :
    Spends e.nodes Value (evaluateWithin levels e) := by
  induction levels generalizing e with
  | zero =>
      refine accumulates_spends.mono (one_le_nodes e)
        (accumulates_spends.bind_zero spends_step _ ?_)
      intro _
      exact spends_throw nofun
  | succ levels ih =>
      rw [nodes_eq]
      refine spends_bind spends_step ?_
      intro _
      refine accumulates_spends.evaluateNode nodes (fun o _ => ih o) ?_
      exact fun name _ => spends_lookUp ih name

end

theorem weigh_restrict_le (level : Level) (constants : Constants) :
    weigh nodes (level.restrict constants) ≤ weigh nodes constants := by
  cases level with
  | literal => exact Nat.zero_le _
  | moduleConstants => exact Nat.le_refl _

/-- An evaluation for which there is time has its result with so many steps or more, and no time
with fewer, whether the constants refer to each other or not.  It takes no more steps than there
are nodes. -/
theorem evaluate_threshold (e : Expression) (locals : List (String × Value))
    (constants : Constants) (level : Level) :
    ∃ (cost : Nat) (result : Except Malformation Value), result ≠ .error .timedOut ∧
      cost ≤ e.nodes + weigh nodes constants ∧
      ∀ timeoutMs maxSteps, timeoutMs ≠ 0 →
        evaluate e locals (level.restrict constants) ⟨level, timeoutMs, maxSteps⟩ =
          if cost ≤ maxSteps then result else .error .timedOut := by
  obtain ⟨cost, outcome, hfault, hcost, hrun⟩ :=
    spends_evaluateWithin maxNesting e ⟨locals, level.restrict constants, [], false⟩ [] rfl
  refine ⟨cost, outcome.map Prod.fst, ?_, ?_, ?_⟩
  · rcases outcome with fault | pair
    · exact fun h => hfault (congrArg _ (Except.error.inj h))
    · nofun
  · have hlevel := weigh_restrict_le level constants
    have houtstanding := outstanding_le nodes (level.restrict constants) [] []
    dsimp only at hcost
    omega
  · intro timeoutMs maxSteps htime
    have hexpired : (timeoutMs == 0) = false := beq_false_of_ne htime
    rw [evaluate_eq, hexpired]
    dsimp only
    rw [hrun]
    unfold Outcome.within
    split
    · rcases outcome with fault | pair
      · rfl
      · rfl
    · rfl

/-- A constant that is referred to twice takes five steps of seven, and two constants that refer to
each other are found out after three. -/
theorem evaluate_threshold_exact :
    let constants : Constants :=
      [("a", .binary .add (.identifier "b") (.identifier "b")), ("b", .string "x"),
        ("c", .identifier "d"), ("d", .identifier "c")]
    (Expression.identifier "a").nodes + weigh nodes constants = 7 ∧
      ∀ maxSteps,
        evaluate (.identifier "a") [] constants ⟨.moduleConstants, 1000, maxSteps⟩ =
          (if 5 ≤ maxSteps then .ok (.string "xx") else .error .timedOut) ∧
        evaluate (.identifier "c") [] constants ⟨.moduleConstants, 1000, maxSteps⟩ =
          if 3 ≤ maxSteps then .error (.circular "c") else .error .timedOut := by
  intro constants
  -- The threshold lies between a budget that is too small and the next one.
  have hexact : ∀ e n result, result ≠ .error .timedOut →
      evaluate e [] constants ⟨.moduleConstants, 1000, n⟩ = .error .timedOut →
      evaluate e [] constants ⟨.moduleConstants, 1000, n + 1⟩ = result →
      ∀ maxSteps, evaluate e [] constants ⟨.moduleConstants, 1000, maxSteps⟩ =
        if n + 1 ≤ maxSteps then result else .error .timedOut := by
    intro e n result hresult hfew henough maxSteps
    obtain ⟨cost, result', hresult', -, hrun⟩ :=
      evaluate_threshold e [] constants .moduleConstants
    have hfew' := (hrun 1000 n (by decide)).symm.trans hfew
    have henough' := (hrun 1000 (n + 1) (by decide)).symm.trans henough
    have hmore : ¬ cost ≤ n := fun hcost => hresult' (by rwa [if_pos hcost] at hfew')
    have hless : cost ≤ n + 1 := by
      by_contra hcost
      rw [if_neg hcost] at henough'
      exact hresult henough'.symm
    obtain rfl : cost = n + 1 := by omega
    rw [if_pos (Nat.le_refl _)] at henough'
    rw [← henough']
    exact hrun 1000 maxSteps (by decide)
  refine ⟨rfl, fun maxSteps => ⟨?_, ?_⟩⟩
  · exact hexact (.identifier "a") 4 (.ok (.string "xx")) nofun rfl rfl maxSteps
  · exact hexact (.identifier "c") 2 (.error (.circular "c")) nofun rfl rfl maxSteps

end StaticStyle.Expression
