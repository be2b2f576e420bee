import StaticStyle.Proofs.Expression.Correspondence

/-!
# Constants worked out afresh

An evaluator that keeps no values works out a constant wherever there is a reference to it
(`Expression.evaluateAfresh`).  It gives the same values as the evaluation that keeps them
(`Expression.evaluate_agrees_afresh`), but takes more steps and levels.

A reference to a constant whose value is being worked out is a failure for both.  A value that
is kept was found while certain constants were being worked out, and may be used while others are.
This hides no circle: a constant that is being worked out has no value that is kept, and what a
kept value was found from is all kept.  The induction therefore carries along that a kept value
is found afresh whichever constants without a kept value are being worked out
(`Expression.KeptApart`).
-/

namespace StaticStyle.Expression

open StaticStyle.Evaluation

/-! ## The evaluator -/

/-- The value of a name: of a local one if there is one, otherwise of a constant, whose initial
value is worked out. -/
def lookUpAfresh (inner : Expression → Evaluation Value) (name : String) : Evaluation Value := do
  let surroundings ← read
  match surroundings.locals.lookup name with
  | some value => return value
  | none =>
      match surroundings.constants.get? name with
      | some initial =>
          if surroundings.resolving.contains name then throw (.circular name)
          else
            withReader (fun s => { s with resolving := name :: s.resolving }) <| inner initial
      | none => throw (.unresolved name)

/-- The value of an expression that takes at most so many levels, constants being worked out
afresh. -/
abbrev afresh (levels : Nat) (e : Expression) : Evaluation Value :=
  evaluateWithinBy lookUpAfresh levels e

/-- The value of an expression among local names and constants, which are worked out afresh, within
so many levels. -/
def evaluateAfresh (levels : Nat) (e : Expression) (locals : List (String × Value))
    (constants : Constants) (limits : Limits) : Except Malformation Value :=
  (((afresh levels e).run ⟨locals, constants, [], limits.timeoutMs == 0⟩).run
    ⟨limits.maxSteps, []⟩).map Prod.fst

/-- The ways in which a name has a value. -/
theorem lookUpAfresh_run_eq_ok {inner : Expression → Evaluation Value} {name : String}
    {s : Surroundings} {p p' : Progress} {value : Value} :
    ((lookUpAfresh inner name).run s).run p = .ok (value, p') ↔
      (s.locals.lookup name = some value ∧ p = p') ∨
        (s.locals.lookup name = none ∧
          ∃ initial, s.constants.get? name = some initial ∧ name ∉ s.resolving ∧
            ((inner initial).run { s with resolving := name :: s.resolving }).run p =
              .ok (value, p')) := by
  unfold lookUpAfresh
  rw [bind_run, read_run]
  dsimp only
  rcases s.locals.lookup name with _ | found
  · rcases s.constants.get? name with _ | initial
    · refine ⟨fun h => (nomatch h), ?_⟩
      simp
    · dsimp only
      simp only [List.contains_eq_mem, decide_eq_true_eq]
      by_cases hname : name ∈ s.resolving
      · rw [if_pos hname]
        refine ⟨fun h => (nomatch h), ?_⟩
        simp [hname]
      · rw [if_neg hname, withReader_run]
        simp [hname]
  · dsimp only
    rw [pure_run]
    simp

/-! ## More levels, more steps, fewer constants being worked out -/

/-- What succeeds uses up steps only, and succeeds in the other way with more steps and fewer
constants being worked out, giving the same answer for as many steps. -/
def Carries {α : Type} (x y : Evaluation α) : Prop :=
  ∀ s p a p', (x.run s).run p = .ok (a, p') →
    p'.budget ≤ p.budget ∧
      ∀ resolving ⊆ s.resolving, ∀ extra known, ∃ known',
        (y.run { s with resolving }).run ⟨p.budget + extra, known⟩ =
          .ok (a, ⟨p'.budget + extra, known'⟩)

theorem corresponds_carries :
    Corresponds (ι := Unit) fun _ x y => Carries x (y ()) where
  pure := by
    intro α a s p a' p' hrun
    rw [pure_run] at hrun
    cases hrun
    exact ⟨Nat.le_refl _, fun resolving _ extra known => ⟨known, rfl⟩⟩
  throw := by
    intro α fault s p a p' hrun
    cases hrun
  bind := by
    intro α β x y f g hx hf s p b p' hrun
    obtain ⟨a, p₁, hfirst, hrest⟩ := exists_of_bind_run hrun
    obtain ⟨hle, hcarried⟩ := hx s p a p₁ hfirst
    obtain ⟨hle', hcarried'⟩ := hf a s p₁ b p' hrest
    refine ⟨Nat.le_trans hle' hle, ?_⟩
    intro resolving hsubset extra known
    obtain ⟨known₁, hfirst'⟩ := hcarried resolving hsubset extra known
    rw [bind_run, hfirst']
    exact hcarried' resolving hsubset extra known₁

theorem carries_step : Carries step step := by
  intro s p a p' hrun
  obtain ⟨hbudget, hexpired, rfl⟩ := step_run_eq_ok.mp hrun
  refine ⟨Nat.sub_le _ _, ?_⟩
  intro resolving _ extra known
  refine ⟨known, step_run_eq_ok.mpr ⟨Nat.add_pos_left hbudget extra, hexpired, ?_⟩⟩
  have hleft : p.budget - 1 + extra = p.budget + extra - 1 := by omega
  dsimp only
  rw [hleft]

theorem carries_lookUpAfresh {inner inner' : Expression → Evaluation Value}
    (hinner : ∀ e, Carries (inner e) (inner' e)) (name : String) :
    Carries (lookUpAfresh inner name) (lookUpAfresh inner' name) := by
  intro s p value p' hrun
  rcases lookUpAfresh_run_eq_ok.mp hrun with
    ⟨hlocal, rfl⟩ | ⟨hlocal, initial, hget, hfresh, hinitial⟩
  · refine ⟨Nat.le_refl _, ?_⟩
    intro resolving _ extra known
    exact ⟨known, lookUpAfresh_run_eq_ok.mpr (Or.inl ⟨hlocal, rfl⟩)⟩
  · obtain ⟨hle, hcarried⟩ := hinner initial _ _ _ _ hinitial
    refine ⟨hle, ?_⟩
    intro resolving hsubset extra known
    obtain ⟨known', hinitial'⟩ :=
      hcarried (name :: resolving) (List.cons_subset_cons name hsubset) extra known
    exact ⟨known', lookUpAfresh_run_eq_ok.mpr
      (Or.inr ⟨hlocal, initial, hget, fun hname => hfresh (hsubset hname), hinitial'⟩)⟩

theorem carries_afresh {levels levels' : Nat} (hlevels : levels ≤ levels') (e : Expression) :
    Carries (afresh levels e) (afresh levels' e) := by
  induction levels generalizing levels' e with
  | zero =>
      intro s p value p' hrun
      exact absurd hrun (evaluateWithinBy_zero_ne_ok _ e _ _ _ _)
  | succ levels ih =>
      obtain ⟨levels', rfl⟩ : ∃ n, levels' = n + 1 := ⟨levels' - 1, by omega⟩
      have hinner : ∀ e, Carries (afresh levels e) (afresh levels' e) :=
        fun e => ih (Nat.le_of_succ_le_succ hlevels) e
      exact corresponds_carries.evaluateWithinBy (fun _ => lookUpAfresh) (fun _ => levels')
        carries_step hinner (carries_lookUpAfresh hinner) e

/-! ## Answers of a family of evaluations -/

/-- From some number on, and with enough steps, each evaluation of a family gives the same answer
and uses up no more than so many steps. -/
def Settles {α : Type} (s : Surroundings) (y : Nat → Evaluation α) (a : α) : Prop :=
  ∃ least cost, ∀ n p, least ≤ n → cost ≤ p.budget →
    ∃ p', ((y n).run s).run p = .ok (a, p') ∧ p.budget ≤ p'.budget + cost

namespace Settles

variable {α β : Type} {s : Surroundings} {y : Nat → Evaluation α} {a : α}

theorem pure (a : α) : Settles s (fun _ => Pure.pure a) a :=
  ⟨0, 0, fun _ p _ _ => ⟨p, rfl, Nat.le_refl _⟩⟩

theorem bind {g : Nat → α → Evaluation β} {b : β} (hy : Settles s y a)
    (hg : Settles s (fun n => g n a) b) : Settles s (fun n => y n >>= g n) b := by
  obtain ⟨least, cost, hy⟩ := hy
  obtain ⟨least', cost', hg⟩ := hg
  refine ⟨max least least', cost + cost', ?_⟩
  intro n p hn hcost
  obtain ⟨p₁, hfirst, hspent⟩ := hy n p (by omega) (by omega)
  obtain ⟨p', hrest, hspent'⟩ := hg n p₁ (by omega) (by omega)
  refine ⟨p', ?_, by omega⟩
  rw [bind_run, hfirst]
  exact hrest

/-- Where a family begins does not matter. -/
theorem of_succ (h : Settles s (fun n => y (n + 1)) a) : Settles s y a := by
  obtain ⟨least, cost, h⟩ := h
  refine ⟨least + 1, cost, ?_⟩
  intro n p hn hcost
  obtain ⟨n, rfl⟩ : ∃ m, n = m + 1 := ⟨n - 1, by omega⟩
  exact h n p (Nat.le_of_succ_le_succ hn) hcost

theorem unique {b : α} (ha : Settles s y a) (hb : Settles s y b) : a = b := by
  obtain ⟨least, cost, ha⟩ := ha
  obtain ⟨least', cost', hb⟩ := hb
  obtain ⟨p₁, hrun, _⟩ := ha (max least least') ⟨cost + cost', []⟩ (Nat.le_max_left _ _)
    (Nat.le_add_right _ _)
  obtain ⟨p₂, hrun', _⟩ := hb (max least least') ⟨cost + cost', []⟩ (Nat.le_max_right _ _)
    (Nat.le_add_left _ _)
  rw [hrun] at hrun'
  cases hrun'
  rfl

theorem step (hexpired : s.expired = false) : Settles s (fun _ => step) ⟨⟩ := by
  refine ⟨0, 1, ?_⟩
  intro n p _ hcost
  refine ⟨{ p with budget := p.budget - 1 }, step_run_eq_ok.mpr ⟨hcost, hexpired, rfl⟩, ?_⟩
  dsimp only
  omega

end Settles

/-- A success shows what comes of it with fewer constants being worked out. -/
theorem settles_of_carries {α : Type} {x : Evaluation α} {y : Nat → Evaluation α} {least : Nat}
    {s : Surroundings} {p p' : Progress} {a : α} {resolving : List String}
    (hcarries : ∀ n, least ≤ n → Carries x (y n)) (hsubset : resolving ⊆ s.resolving)
    (hrun : (x.run s).run p = .ok (a, p')) : Settles { s with resolving } y a := by
  refine ⟨least, p.budget, ?_⟩
  intro n q hn hcost
  obtain ⟨hle, hcarried⟩ := hcarries n hn s p a p' hrun
  obtain ⟨known', hrun'⟩ := hcarried resolving hsubset (q.budget - p.budget) q.known
  rw [Nat.add_sub_cancel' hcost] at hrun'
  exact ⟨_, hrun', by dsimp only; omega⟩

theorem settles_of_local {s : Surroundings} {name : String} {value : Value}
    (hlocal : s.locals.lookup name = some value) :
    Settles s (fun n => lookUpAfresh (afresh n) name) value :=
  ⟨0, 0, fun _ p _ _ => ⟨p, lookUpAfresh_run_eq_ok.mpr (Or.inl ⟨hlocal, rfl⟩), Nat.le_refl _⟩⟩

/-- A constant has the value that its initial value has while it is being worked out. -/
theorem settles_of_constant {s : Surroundings} {name : String} {initial : Expression}
    {value : Value} (hlocal : s.locals.lookup name = none)
    (hget : s.constants.get? name = some initial) (hfresh : name ∉ s.resolving)
    (h : Settles { s with resolving := name :: s.resolving } (afresh · initial) value) :
    Settles s (fun n => lookUpAfresh (afresh n) name) value := by
  obtain ⟨least, cost, h⟩ := h
  refine ⟨least, cost, ?_⟩
  intro n p hn hcost
  obtain ⟨p', hinitial, hspent⟩ := h n p hn hcost
  exact ⟨p', lookUpAfresh_run_eq_ok.mpr (Or.inr ⟨hlocal, initial, hget, hfresh, hinitial⟩), hspent⟩

/-! ## From evaluation afresh to values that are kept -/

section

variable {locals : List (String × Value)} {constants : Constants} {expired : Bool} {α : Type}

/-- The values that are kept are found afresh, as far as no local name hides them. -/
def KeptAfresh (locals : List (String × Value)) (constants : Constants) (expired : Bool)
    (p : Progress) : Prop :=
  ∀ name value, p.known.lookup name = some value → locals.lookup name = none →
    Settles ⟨locals, constants, [], expired⟩ (fun n => lookUpAfresh (afresh n) name) value

/-- What succeeds also succeeds in the other way, with no fewer steps left, if the values that are
kept are found afresh. -/
def Follows (locals : List (String × Value)) (constants : Constants) (expired : Bool)
    (x y : Evaluation α) : Prop :=
  ∀ resolving p a p', (x.run ⟨locals, constants, resolving, expired⟩).run p = .ok (a, p') →
    ∀ q, p.budget ≤ q.budget → KeptAfresh locals constants expired q →
      ∃ q', (y.run ⟨locals, constants, resolving, expired⟩).run q = .ok (a, q') ∧
        p'.budget ≤ q'.budget ∧ KeptAfresh locals constants expired q'

theorem corresponds_follows (locals : List (String × Value)) (constants : Constants)
    (expired : Bool) :
    Corresponds (ι := Unit) fun _ x y => Follows locals constants expired x (y ()) where
  pure := by
    intro α a resolving p a' p' hrun q hbudget hkept
    rw [pure_run] at hrun
    cases hrun
    exact ⟨q, rfl, hbudget, hkept⟩
  throw := by
    intro α fault resolving p a p' hrun
    cases hrun
  bind := by
    intro α β x y f g hx hf resolving p b p' hrun q hbudget hkept
    obtain ⟨a, p₁, hfirst, hrest⟩ := exists_of_bind_run hrun
    obtain ⟨q₁, hfirst', hbudget₁, hkept₁⟩ := hx resolving p a p₁ hfirst q hbudget hkept
    obtain ⟨q', hrest', hbudget', hkept'⟩ := hf a resolving p₁ b p' hrest q₁ hbudget₁ hkept₁
    refine ⟨q', ?_, hbudget', hkept'⟩
    rw [bind_run, hfirst']
    exact hrest'

theorem follows_step : Follows locals constants expired step step := by
  intro resolving p a p' hrun q hbudget hkept
  obtain ⟨hleft, hexpired, rfl⟩ := step_run_eq_ok.mp hrun
  exact ⟨_, step_run_eq_ok.mpr ⟨Nat.lt_of_lt_of_le hleft hbudget, hexpired, rfl⟩,
    Nat.sub_le_sub_right hbudget 1, hkept⟩

theorem KeptAfresh.keep {name : String} {value : Value} {p : Progress}
    (hkept : KeptAfresh locals constants expired p)
    (hvalue : Settles ⟨locals, constants, [], expired⟩ (fun n => lookUpAfresh (afresh n) name)
      value) :
    KeptAfresh locals constants expired (p.keep name value) := by
  intro other found hfound hlocal
  rcases Progress.lookup_keep_eq_some.mp hfound with ⟨rfl, rfl⟩ | ⟨-, hfound⟩
  · exact hvalue
  · exact hkept other found hfound hlocal

theorem follows_lookUp {levels : Nat} {inner : Expression → Evaluation Value}
    (hinner : ∀ e, Follows locals constants expired (afresh levels e) (inner e)) (name : String) :
    Follows locals constants expired (lookUpAfresh (afresh levels) name) (lookUp inner name) := by
  intro resolving p value p' hrun q hbudget hkept
  -- What is found here is also found when no constant is being worked out.
  have hvalue : Settles ⟨locals, constants, [], expired⟩ (fun n => lookUpAfresh (afresh n) name)
      value :=
    settles_of_carries (fun n hn => carries_lookUpAfresh (carries_afresh hn) name)
      (List.nil_subset resolving) hrun
  obtain ⟨hspent, _⟩ := carries_lookUpAfresh (carries_afresh (Nat.le_refl levels)) name _ _ _ _ hrun
  rcases lookUpAfresh_run_eq_ok.mp hrun with
    ⟨hlocal, rfl⟩ | ⟨hlocal, initial, hget, hfresh, hinitial⟩
  · exact ⟨q, lookUp_run_eq_ok.mpr (Or.inl ⟨hlocal, rfl⟩), hbudget, hkept⟩
  · cases hknown : q.known.lookup name with
    | some found =>
        obtain rfl := (hkept name found hknown hlocal).unique hvalue
        exact ⟨q, lookUp_run_eq_ok.mpr (Or.inr (Or.inl ⟨hlocal, hknown, rfl⟩)),
          Nat.le_trans hspent hbudget, hkept⟩
    | none =>
        obtain ⟨q', hinitial', hbudget', hkept'⟩ := hinner initial _ _ _ _ hinitial q hbudget hkept
        refine ⟨q'.keep name value, lookUp_run_eq_ok.mpr (Or.inr (Or.inr ?_)), hbudget',
          hkept'.keep hvalue⟩
        exact ⟨hlocal, hknown, initial, q', hget, hfresh, hinitial', rfl⟩

/-- An evaluation that keeps values does what an evaluation afresh does, within the same levels. -/
theorem follows_evaluateWithin (levels : Nat) (e : Expression) :
    Follows locals constants expired (afresh levels e) (evaluateWithin levels e) := by
  rw [← evaluateWithinBy_lookUp]
  induction levels generalizing e with
  | zero =>
      intro resolving p value p' hrun
      exact absurd hrun (evaluateWithinBy_zero_ne_ok _ e _ _ _ _)
  | succ levels ih =>
      exact (corresponds_follows locals constants expired).evaluateWithinBy (fun _ => lookUp)
        (fun _ => levels) follows_step ih (follows_lookUp ih) e

/-! ## From values that are kept to evaluation afresh -/

/-- No value is kept for any of some names. -/
def Apart (names : List String) (p : Progress) : Prop :=
  ∀ name ∈ names, p.known.lookup name = none

/-- The values that are kept are found afresh, as far as no local name hides them, whichever
constants without a kept value are being worked out. -/
def KeptApart (locals : List (String × Value)) (constants : Constants) (expired : Bool)
    (p : Progress) : Prop :=
  ∀ name value, p.known.lookup name = some value → locals.lookup name = none →
    ∀ resolving, Apart resolving p →
      Settles ⟨locals, constants, resolving, expired⟩ (fun n => lookUpAfresh (afresh n) name) value

/-- Values have been kept in addition to others. -/
def Extends (p' p : Progress) : Prop :=
  ∀ name, p'.known.lookup name = none → p.known.lookup name = none

theorem Apart.mono {names : List String} {p p' : Progress} (h : Apart names p')
    (hextends : Extends p' p) : Apart names p :=
  fun name hname => hextends name (h name hname)

/-- What succeeds is what a family of evaluations gives, whichever constants without a kept value
are being worked out. -/
def Foretells (locals : List (String × Value)) (constants : Constants) (expired : Bool)
    (x : Evaluation α) (y : Nat → Evaluation α) : Prop :=
  ∀ resolving p a p', KeptApart locals constants expired p → Apart resolving p →
    (x.run ⟨locals, constants, resolving, expired⟩).run p = .ok (a, p') →
      KeptApart locals constants expired p' ∧ Apart resolving p' ∧ Extends p' p ∧
        ∀ resolving', Apart resolving' p' →
          Settles ⟨locals, constants, resolving', expired⟩ y a

theorem corresponds_foretells (locals : List (String × Value)) (constants : Constants)
    (expired : Bool) : Corresponds fun _ => Foretells locals constants expired where
  pure := by
    intro α a resolving p a' p' hkept hapart hrun
    rw [pure_run] at hrun
    cases hrun
    exact ⟨hkept, hapart, fun _ h => h, fun _ _ => .pure a⟩
  throw := by
    intro α fault resolving p a p' hkept hapart hrun
    cases hrun
  bind := by
    intro α β x y f g hx hf resolving p b p' hkept hapart hrun
    obtain ⟨a, p₁, hfirst, hrest⟩ := exists_of_bind_run hrun
    obtain ⟨hkept₁, hapart₁, hextends₁, hsettles₁⟩ := hx resolving p a p₁ hkept hapart hfirst
    obtain ⟨hkept', hapart', hextends', hsettles'⟩ := hf a resolving p₁ b p' hkept₁ hapart₁ hrest
    refine ⟨hkept', hapart', fun name hname => hextends₁ name (hextends' name hname), ?_⟩
    intro resolving' hresolving'
    exact (hsettles₁ resolving' (hresolving'.mono hextends')).bind
      (hsettles' resolving' hresolving')

theorem foretells_step : Foretells locals constants expired step fun _ => step := by
  intro resolving p a p' hkept hapart hrun
  obtain ⟨-, hexpired, rfl⟩ := step_run_eq_ok.mp hrun
  exact ⟨hkept, hapart, fun _ h => h, fun _ _ => .step hexpired⟩

theorem extends_keep (p : Progress) (name : String) (value : Value) :
    Extends (p.keep name value) p :=
  fun _ hother => (Progress.lookup_keep_eq_none.mp hother).2

/-- A value may be kept for a name that is not among some others. -/
theorem apart_keep {names : List String} {name : String} {value : Value} {p : Progress} :
    Apart names (p.keep name value) ↔ name ∉ names ∧ Apart names p := by
  constructor
  · intro h
    exact ⟨fun hname => (Progress.lookup_keep_eq_none.mp (h name hname)).1 rfl,
      h.mono (extends_keep p name value)⟩
  · rintro ⟨hname, h⟩ other hother
    exact Progress.lookup_keep_eq_none.mpr ⟨ne_of_mem_of_not_mem hother hname, h other hother⟩

theorem KeptApart.keep {name : String} {value : Value} {p : Progress}
    (hkept : KeptApart locals constants expired p)
    (hvalue : ∀ resolving, Apart resolving (p.keep name value) →
      Settles ⟨locals, constants, resolving, expired⟩ (fun n => lookUpAfresh (afresh n) name)
        value) :
    KeptApart locals constants expired (p.keep name value) := by
  intro other found hfound hlocal resolving hapart
  rcases Progress.lookup_keep_eq_some.mp hfound with ⟨rfl, rfl⟩ | ⟨-, hfound⟩
  · exact hvalue resolving hapart
  · exact hkept other found hfound hlocal resolving (hapart.mono (extends_keep p name value))

theorem foretells_lookUp {inner : Expression → Evaluation Value}
    (hinner : ∀ e, Foretells locals constants expired (inner e) (afresh · e)) (name : String) :
    Foretells locals constants expired (lookUp inner name)
      fun n => lookUpAfresh (afresh n) name := by
  intro resolving p value p' hkept hapart hrun
  rcases lookUp_run_eq_ok.mp hrun with ⟨hlocal, rfl⟩ | ⟨hlocal, hknown, rfl⟩ |
    ⟨hlocal, hunknown, initial, p₁, hget, hfresh, hinitial, rfl⟩
  · exact ⟨hkept, hapart, fun _ h => h, fun _ _ => settles_of_local hlocal⟩
  · exact ⟨hkept, hapart, fun _ h => h, hkept name value hknown hlocal⟩
  · have hapart' : Apart (name :: resolving) p :=
      List.forall_mem_cons.mpr ⟨hunknown, hapart⟩
    obtain ⟨hkept₁, hapart₁, hextends₁, hsettles₁⟩ :=
      hinner initial _ _ _ _ hkept hapart' hinitial
    obtain ⟨hunknown₁, hresolving₁⟩ := List.forall_mem_cons.mp hapart₁
    -- The constant itself had no kept value while it was being worked out.
    have hvalue : ∀ resolving', Apart resolving' (p₁.keep name value) →
        Settles ⟨locals, constants, resolving', expired⟩ (fun n => lookUpAfresh (afresh n) name)
          value := by
      intro resolving' hresolving'
      obtain ⟨hfresh', hresolving'⟩ := apart_keep.mp hresolving'
      exact settles_of_constant hlocal hget hfresh'
        (hsettles₁ (name :: resolving') (List.forall_mem_cons.mpr ⟨hunknown₁, hresolving'⟩))
    refine ⟨hkept₁.keep hvalue, apart_keep.mpr ⟨hfresh, hresolving₁⟩, ?_, hvalue⟩
    intro other hother
    exact hextends₁ other (extends_keep p₁ name value other hother)

/-- An evaluation afresh with levels and steps enough does what an evaluation that keeps values
does. -/
theorem foretells_evaluateWithin (levels : Nat) (e : Expression) :
    Foretells locals constants expired (evaluateWithin levels e) (afresh · e) := by
  rw [← evaluateWithinBy_lookUp]
  induction levels generalizing e with
  | zero =>
      intro resolving p value p' hkept hapart hrun
      exact absurd hrun (evaluateWithinBy_zero_ne_ok _ e _ _ _ _)
  | succ levels ih =>
      intro resolving p value p' hkept hapart hrun
      obtain ⟨hkept', hapart', hextends, hsettles⟩ :=
        (corresponds_foretells locals constants expired).evaluateWithinBy (fun _ => lookUpAfresh)
          id foretells_step ih (foretells_lookUp ih) e resolving p value p' hkept hapart hrun
      exact ⟨hkept', hapart', hextends, fun resolving' h => (hsettles resolving' h).of_succ⟩

end

/-! ## The two evaluators -/

/-- An evaluation that keeps the values of constants gives the value that an evaluation afresh
within the same limits gives, and a value that it gives is the one that evaluation afresh gives
with levels and steps enough. -/
theorem evaluate_agrees_afresh (e : Expression) (locals : List (String × Value))
    (constants : Constants) (limits : Limits) (value : Value) :
    (evaluateAfresh maxNesting e locals constants limits = .ok value →
      evaluate e locals constants limits = .ok value) ∧
    (evaluate e locals constants limits = .ok value →
      ∃ levels steps, ∀ levels' steps', levels ≤ levels' → steps ≤ steps' →
        evaluateAfresh levels' e locals constants { limits with maxSteps := steps' } =
          .ok value) := by
  constructor
  · intro h
    obtain ⟨p', hrun⟩ := map_fst_eq_ok.mp h
    have hkept : KeptAfresh locals constants (limits.timeoutMs == 0) ⟨limits.maxSteps, []⟩ := by
      intro name known hknown
      cases hknown
    obtain ⟨q', hrun', -⟩ :=
      follows_evaluateWithin maxNesting e _ _ _ _ hrun _ (Nat.le_refl _) hkept
    rw [evaluate_eq]
    exact map_fst_eq_ok.mpr ⟨q', hrun'⟩
  · intro h
    rw [evaluate_eq] at h
    obtain ⟨p', hrun⟩ := map_fst_eq_ok.mp h
    have hkept : KeptApart locals constants (limits.timeoutMs == 0) ⟨limits.maxSteps, []⟩ := by
      intro name known hknown
      cases hknown
    have hapart : Apart [] ⟨limits.maxSteps, []⟩ := by
      intro name hname
      cases hname
    obtain ⟨-, -, -, hsettles⟩ :=
      foretells_evaluateWithin maxNesting e _ _ _ _ hkept hapart hrun
    obtain ⟨levels, steps, hfound⟩ := hsettles [] fun name hname => nomatch hname
    refine ⟨levels, steps, ?_⟩
    intro levels' steps' hlevels hsteps
    obtain ⟨q', hrun', -⟩ := hfound levels' ⟨steps', []⟩ hlevels hsteps
    exact map_fst_eq_ok.mpr ⟨q', hrun'⟩

/-- A constant that is referred to twice, beside two that refer to each other. -/
theorem evaluate_agrees_afresh_twice :
    let constants : Constants :=
      [("a", .binary .add (.identifier "b") (.identifier "b")), ("b", .string "x"),
        ("c", .identifier "d"), ("d", .identifier "c")]
    evaluate (.identifier "a") [] constants .default = .ok (.string "xx") ∧
      ∃ levels steps, ∀ levels' steps', levels ≤ levels' → steps ≤ steps' →
        evaluateAfresh levels' (.identifier "a") [] constants
          { Limits.default with maxSteps := steps' } = .ok (.string "xx") := by
  intro constants
  have hagrees := evaluate_agrees_afresh (.identifier "a") [] constants .default (.string "xx")
  have hvalue : evaluate (.identifier "a") [] constants .default = .ok (.string "xx") :=
    hagrees.1 rfl
  exact ⟨hvalue, hagrees.2 hvalue⟩

end StaticStyle.Expression
