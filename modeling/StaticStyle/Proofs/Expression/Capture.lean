import StaticStyle.Proofs.Expression.Correspondence

/-!
# Captured names

The initial value of a constant belongs to the module, where no local name is in sight
(`Expression.evaluateLexically`).  The evaluation works it out in the middle of an expression that
has local names, and looks its names up among these first.  A name in an initial value that a
local name captures in this way stands for the local value.

No name is captured if none in the initial values of the constants that an expression uses is that
of a local value (`Expression.Uncaptured`).  Then the evaluation gives what belongs to the module
(`Expression.evaluate_eq_lexically`), and other local names in the places of the old ones make no
difference (`Expression.evaluate_rename`).
-/

namespace StaticStyle.Expression

open StaticStyle.Evaluation

/-! ## Evaluations that do the same -/

section

variable {locals locals' : List (String × Value)} {constants constants' : Constants} {α : Type}

/-- One evaluation does among its names what another does among others. -/
def Alike (locals : List (String × Value)) (constants : Constants)
    (locals' : List (String × Value)) (constants' : Constants) (x y : Evaluation α) : Prop :=
  ∀ resolving expired p, (x.run ⟨locals, constants, resolving, expired⟩).run p =
    (y.run ⟨locals', constants', resolving, expired⟩).run p

theorem corresponds_alike (locals : List (String × Value)) (constants : Constants)
    (locals' : List (String × Value)) (constants' : Constants) :
    Corresponds (ι := Unit) fun _ x y => Alike locals constants locals' constants' x (y ()) where
  pure := by
    intro α a resolving expired p
    rfl
  throw := by
    intro α fault resolving expired p
    rfl
  bind := by
    intro α β x y f g hx hf resolving expired p
    rw [bind_run, bind_run, hx resolving expired p]
    rcases ((y ()).run ⟨locals', constants', resolving, expired⟩).run p with fault | ⟨a, p'⟩
    · rfl
    · exact hf a resolving expired p'

theorem alike_step : Alike locals constants locals' constants' step step := by
  intro resolving expired p
  rw [step_run, step_run]

/-- Names that stand for the same local value, or for a constant whose initial value is
evaluated alike, are looked up alike. -/
theorem alike_lookUp {inner inner' : Expression → Evaluation Value} {name name' : String}
    (hlocal : locals'.lookup name' = locals.lookup name)
    (hconstant : locals.lookup name = none →
      name' = name ∧ constants'.get? name = constants.get? name ∧
        ∀ initial, constants.get? name = some initial →
          Alike locals constants locals' constants' (inner initial) (inner' initial)) :
    Alike locals constants locals' constants' (lookUp inner name) (lookUp inner' name') := by
  intro resolving expired p
  rw [lookUp_run, lookUp_run]
  dsimp only
  rw [hlocal]
  cases hnone : locals.lookup name with
  | some value => rfl
  | none =>
      obtain ⟨rfl, hget, hinner⟩ := hconstant hnone
      rw [hget]
      rcases p.known.lookup name' with _ | value
      · cases hinitial : constants.get? name' with
        | none => rfl
        | some initial =>
            dsimp only
            rw [hinner initial hinitial (name' :: resolving) expired p]
      · rfl

end

/-! ## Constants among themselves -/

/-- The value of a name: of a local one if there is one, otherwise of a constant, whose initial
value is worked out with no local name in sight. -/
def lookUpLexically (inner : Expression → Evaluation Value) (name : String) : Evaluation Value := do
  match (← read).locals.lookup name with
  | some value => return value
  | none => withReader (fun s => { s with locals := [] }) <| lookUp inner name

/-- The value of an expression among local names and constants, the initial values of which have no
local name in sight. -/
def evaluateLexically (e : Expression) (locals : List (String × Value)) (constants : Constants)
    (limits : Limits) : Except Malformation Value :=
  (((evaluateWithinBy lookUpLexically maxNesting e).run
    ⟨locals, constants, [], limits.timeoutMs == 0⟩).run ⟨limits.maxSteps, []⟩).map Prod.fst

theorem lookUpLexically_run_of_none {name : String} {s : Surroundings}
    (hnone : s.locals.lookup name = none) (inner : Expression → Evaluation Value) (p : Progress) :
    ((lookUpLexically inner name).run s).run p =
      ((lookUp inner name).run { s with locals := [] }).run p := by
  unfold lookUpLexically
  rw [bind_run, read_run]
  dsimp only
  rw [hnone]
  rfl

theorem lookUpLexically_run_of_some {name : String} {s : Surroundings} {value : Value}
    (hvalue : s.locals.lookup name = some value) (inner : Expression → Evaluation Value)
    (p : Progress) : ((lookUpLexically inner name).run s).run p = .ok (value, p) := by
  unfold lookUpLexically
  rw [bind_run, read_run]
  dsimp only
  rw [hvalue]
  rfl

/-! ## The constants that an expression uses -/

/-- The names of constants that an expression may come to: those in the expression that no local
name hides, and those in the initial values of others. -/
inductive Uses (hidden : List String) (constants : Constants) (e : Expression) : String → Prop where
  | directly {name} : name ∈ e.names → name ∉ hidden → Uses hidden constants e name
  | through {name initial other} :
      Uses hidden constants e name → constants.get? name = some initial → other ∈ initial.names →
      Uses hidden constants e other

/-- No name in the initial values of the constants that an expression uses is among the hidden
ones. -/
def Uncaptured (hidden : List String) (constants : Constants) (e : Expression) : Prop :=
  ∀ name initial, Uses hidden constants e name → constants.get? name = some initial →
    ∀ other ∈ initial.names, other ∉ hidden

theorem lookup_eq_none_iff {locals : List (String × Value)} {name : String} :
    locals.lookup name = none ↔ name ∉ locals.map Prod.fst := by
  rw [List.lookup_eq_none_iff]
  constructor
  · intro h hname
    obtain ⟨pair, hpair, rfl⟩ := List.mem_map.mp hname
    exact (bne_iff_ne.mp (h pair hpair)) rfl
  · intro h pair hpair
    rw [bne_iff_ne]
    rintro rfl
    exact h (List.mem_map_of_mem hpair)

section

variable {locals : List (String × Value)} {constants : Constants} {e : Expression}

/-- A constant is looked up as it is with no local name in sight if its initial value is evaluated
so. -/
theorem alike_lookUpLexically {locals' : List (String × Value)}
    {inner inner' : Expression → Evaluation Value} {name : String}
    (hnone : locals.lookup name = none) (hnone' : locals'.lookup name = none)
    (hinner : ∀ initial, constants.get? name = some initial →
      Alike locals constants [] constants (inner initial) (inner' initial)) :
    Alike locals constants locals' constants (lookUp inner name) (lookUpLexically inner' name) := by
  intro resolving expired p
  rw [lookUpLexically_run_of_none hnone']
  refine alike_lookUp ?_ ?_ resolving expired p
  · rw [hnone]
    rfl
  · intro _
    exact ⟨rfl, rfl, hinner⟩

/-- The initial values of constants that are used are evaluated as with no local name in sight. -/
theorem alike_initial (huncaptured : Uncaptured (locals.map Prod.fst) constants e) (levels : Nat)
    {e' : Expression} (hnames : ∀ name ∈ e'.names,
      Uses (locals.map Prod.fst) constants e name ∧ name ∉ locals.map Prod.fst) :
    Alike locals constants [] constants (evaluateWithinBy lookUp levels e')
      (evaluateWithinBy lookUpLexically levels e') := by
  induction levels generalizing e' with
  | zero =>
      exact (corresponds_alike locals constants [] constants).evaluateWithinBy_zero
        (fun _ => lookUpLexically) alike_step e' e'
  | succ levels ih =>
      refine (corresponds_alike locals constants [] constants).evaluateWithinBy_among
        (fun _ => lookUpLexically) (fun _ => levels) alike_step
        (fun _ he => ih he) ?_ hnames
      rintro name ⟨huses, hname⟩
      refine alike_lookUpLexically (lookup_eq_none_iff.mpr hname) rfl ?_
      intro initial hget
      refine ih fun other hother => ⟨huses.through hget hother, ?_⟩
      exact huncaptured name initial huses hget other hother

/-- An expression that uses constants is evaluated as if their initial values had no local name in
sight. -/
theorem alike_lexically (huncaptured : Uncaptured (locals.map Prod.fst) constants e) (levels : Nat)
    {e' : Expression} (hnames : ∀ name ∈ e'.names, name ∉ locals.map Prod.fst →
      Uses (locals.map Prod.fst) constants e name) :
    Alike locals constants locals constants (evaluateWithinBy lookUp levels e')
      (evaluateWithinBy lookUpLexically levels e') := by
  induction levels generalizing e' with
  | zero =>
      exact (corresponds_alike locals constants locals constants).evaluateWithinBy_zero
        (fun _ => lookUpLexically) alike_step e' e'
  | succ levels ih =>
      refine (corresponds_alike locals constants locals constants).evaluateWithinBy_among
        (fun _ => lookUpLexically) (fun _ => levels) alike_step
        (fun _ he => ih he) ?_ hnames
      intro name huses
      cases hlocal : locals.lookup name with
      | some value =>
          intro resolving expired p
          rw [lookUp_run, lookUpLexically_run_of_some hlocal]
          dsimp only
          rw [hlocal]
      | none =>
          have hname := huses (lookup_eq_none_iff.mp hlocal)
          refine alike_lookUpLexically hlocal hlocal ?_
          intro initial hget
          refine alike_initial huncaptured levels fun other hother => ⟨hname.through hget hother, ?_⟩
          exact huncaptured name initial hname hget other hother

/-- If no name is captured, the initial values of constants have no local name in sight. -/
theorem evaluate_eq_lexically (huncaptured : Uncaptured (locals.map Prod.fst) constants e)
    (limits : Limits) :
    evaluate e locals constants limits = evaluateLexically e locals constants limits := by
  have hnames : ∀ name ∈ e.names, name ∉ locals.map Prod.fst →
      Uses (locals.map Prod.fst) constants e name :=
    fun name hname hhidden => .directly hname hhidden
  have halike := alike_lexically huncaptured maxNesting hnames
  rw [evaluate_eq, ← evaluateWithinBy_lookUp, halike]
  rfl

end

/-! ## Other local names -/

section

variable {locals : List (String × Value)} {constants : Constants} {e : Expression}
  {ρ : String → String}

/-- Local values under other names. -/
def renameLocals (ρ : String → String) (locals : List (String × Value)) : List (String × Value) :=
  locals.map fun pair => (ρ pair.1, pair.2)

/-- None of some other names becomes what a name becomes. -/
def KeepsApart (ρ : String → String) (hidden : List String) (name : String) : Prop :=
  ∀ other ∈ hidden, ρ other = ρ name → other = name

/-- A name stands for the same value if no other has taken its place. -/
theorem lookup_renameLocals {name : String} (h : KeepsApart ρ (locals.map Prod.fst) name) :
    (renameLocals ρ locals).lookup (ρ name) = locals.lookup name := by
  induction locals with
  | nil => rfl
  | cons pair rest ih =>
      obtain ⟨hpair, hrest⟩ := List.forall_mem_cons.mp h
      rw [renameLocals, List.map_cons, List.lookup_cons, List.lookup_cons]
      by_cases hsame : name = pair.1
      · rw [hsame, beq_self_eq_true, beq_self_eq_true]
      · have hdiffer : ρ name ≠ ρ pair.1 := fun h => hsame (hpair h.symm).symm
        rw [beq_false_of_ne hsame, beq_false_of_ne hdiffer]
        exact ih hrest

/-- An evaluation does the same with other local names in the places of the old ones, if no name
is captured, neither before nor after. -/
theorem alike_rename
    (hinitial : ∀ name initial, Uses (locals.map Prod.fst) constants e name →
      constants.get? name = some initial → ∀ other ∈ initial.names,
        ρ other = other ∧ KeepsApart ρ (locals.map Prod.fst) other)
    (levels : Nat) {e' : Expression} (hnames : ∀ name ∈ e'.names,
      KeepsApart ρ (locals.map Prod.fst) name ∧
        (name ∉ locals.map Prod.fst → ρ name = name ∧ Uses (locals.map Prod.fst) constants e name)) :
    Alike locals constants (renameLocals ρ locals) constants (evaluateWithinBy lookUp levels e')
      (evaluateWithinBy lookUp levels (e'.rename ρ)) := by
  induction levels generalizing e' with
  | zero =>
      exact (corresponds_alike locals constants _ constants).evaluateWithinBy_zero
        (fun _ => lookUp) alike_step e' (e'.rename ρ)
  | succ levels ih =>
      refine (corresponds_alike locals constants _ constants).evaluateWithinBy_rename ρ
        (fun _ => lookUp) (fun _ => levels) alike_step (fun _ he => ih he) ?_ hnames
      rintro name ⟨hapart, hfree⟩
      refine alike_lookUp (lookup_renameLocals hapart) ?_
      intro hnone
      obtain ⟨hstays, huses⟩ := hfree (lookup_eq_none_iff.mp hnone)
      refine ⟨hstays, rfl, ?_⟩
      intro initial hget
      have hothers := hinitial name initial huses hget
      -- The initial value has none of the names that are replaced.
      have hsame : initial.rename ρ = initial :=
        rename_eq_self initial fun other hother => (hothers other hother).1
      have halike := @ih initial fun other hother =>
        ⟨(hothers other hother).2, fun _ => ⟨(hothers other hother).1, huses.through hget hother⟩⟩
      rwa [hsame] at halike

/-- One name in the place of another. -/
def replace (old new name : String) : String := if name = old then new else name

theorem replace_eq_self {old new name : String} (h : name ≠ old) : replace old new name = name :=
  if_neg h

/-- No two names other than the new one become the same. -/
theorem eq_of_replace_eq {old new name other : String} (hname : name ≠ new) (hother : other ≠ new)
    (h : replace old new name = replace old new other) : name = other := by
  unfold replace at h
  split at h
  · rename_i hold
    split at h
    · rename_i hold'
      rw [hold, hold']
    · exact absurd h.symm hother
  · split at h
    · exact absurd h hname
    · exact h

/-- If no name is captured, a new name in the place of an old local one makes no difference. -/
theorem evaluate_rename {old new : String}
    (huncaptured : Uncaptured (locals.map Prod.fst) constants e)
    (hold : old ∈ locals.map Prod.fst) (hnew : new ∉ locals.map Prod.fst) (hbody : new ∉ e.names)
    (hconstants : ∀ name initial, constants.get? name = some initial → new ∉ initial.names)
    (limits : Limits) :
    evaluate (e.rename (replace old new)) (renameLocals (replace old new) locals) constants limits =
      evaluate e locals constants limits := by
  have hstays : ∀ name, name ∉ locals.map Prod.fst → replace old new name = name :=
    fun name hname => replace_eq_self (ne_of_mem_of_not_mem hold hname).symm
  have hapart : ∀ name, name ≠ new → KeepsApart (replace old new) (locals.map Prod.fst) name :=
    fun name hname other hother => eq_of_replace_eq (ne_of_mem_of_not_mem hother hnew) hname
  have halike : Alike locals constants (renameLocals (replace old new) locals) constants
      (evaluateWithinBy lookUp maxNesting e)
      (evaluateWithinBy lookUp maxNesting (e.rename (replace old new))) := by
    refine alike_rename (e := e) ?_ maxNesting ?_
    · intro name initial huses hget other hother
      exact ⟨hstays other (huncaptured name initial huses hget other hother),
        hapart other (ne_of_mem_of_not_mem hother (hconstants name initial hget))⟩
    · intro name hname
      exact ⟨hapart name (ne_of_mem_of_not_mem hname hbody),
        fun hhidden => ⟨hstays name hhidden, .directly hname hhidden⟩⟩
  rw [evaluate_eq, evaluate_eq, ← evaluateWithinBy_lookUp, halike]

end

end StaticStyle.Expression
