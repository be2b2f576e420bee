import StaticStyle.Proofs.Expression.Budget
import StaticStyle.Proofs.Expression.Correspondence
import StaticStyle.Proofs.Style.Size

/-!
# How large the value of an expression is

A name takes one step, but the value that it stands for may have any number of items and entries.
An evaluator that takes a further step for each of those wherever the value of a constant has been
kept (`Expression.evaluatePaying`) gives the same values, and none that is as large as the number of
its steps (`Expression.paid_evaluateWithin`).

What it takes beside the steps of the evaluation itself is the size of the values that are copied.
A copy is no larger than what has been paid for so far, so each step doubles that at most
(`Expression.Doubles`).  This bounds the size of a value by two to the power of the steps of its
evaluation (`Expression.size_of_evaluate`).
-/

namespace StaticStyle.Expression

open StaticStyle.Evaluation

/-! ## The evaluator -/

/-- Uses up so many steps. -/
def pay : Nat → Evaluation Unit
  | 0 => return
  | n + 1 => do step; pay n

/-- The value of a name, a copy of one that has been kept being paid for. -/
def lookUpPaying (inner : Expression → Evaluation Value) (name : String) : Evaluation Value := do
  match (← read).locals.lookup name, (← get).known.lookup name with
  | none, some value => do pay value.size; return value
  | _, _ => lookUp inner name

/-- The value of an expression that takes at most so many levels, copies being paid for. -/
abbrev paying (levels : Nat) (e : Expression) : Evaluation Value :=
  evaluateWithinBy lookUpPaying levels e

/-- The value of an expression among constants, copies of their values being paid for. -/
def evaluatePaying (e : Expression) (constants : Constants) (limits : Limits) :
    Except Malformation Value :=
  (((paying maxNesting e).run ⟨[], constants, [], limits.timeoutMs == 0⟩).run
    ⟨limits.maxSteps, []⟩).map Prod.fst

theorem lookUpPaying_run_of_known {inner : Expression → Evaluation Value} {name : String}
    {s : Surroundings} {p : Progress} {value : Value} (hlocal : s.locals.lookup name = none)
    (hknown : p.known.lookup name = some value) :
    ((lookUpPaying inner name).run s).run p =
      ((pay value.size >>= fun _ => pure value).run s).run p := by
  unfold lookUpPaying
  rw [bind_run, read_run]
  dsimp only
  rw [bind_run, get_run]
  dsimp only
  rw [hlocal, hknown]

theorem lookUpPaying_run_of_unknown {inner : Expression → Evaluation Value} {name : String}
    {s : Surroundings} {p : Progress} (hknown : p.known.lookup name = none) :
    ((lookUpPaying inner name).run s).run p = ((lookUp inner name).run s).run p := by
  unfold lookUpPaying
  rw [bind_run, read_run]
  dsimp only
  rw [bind_run, get_run]
  dsimp only
  rw [hknown]
  rcases s.locals.lookup name with _ | value
  · rfl
  · rfl

/-! ## What has been paid for -/

/-- With so many steps paid in advance, the amount of the answer has been paid for. -/
def Paid {α : Type} (advance : Nat) (amount : α → Nat) (x : Evaluation α) : Prop :=
  ∀ s p a p', s.locals = [] → (x.run s).run p = .ok (a, p') →
    amount a + p'.budget ≤ advance + p.budget

namespace Paid

variable {α β : Type} {advance : Nat} {amount : α → Nat} {x : Evaluation α}

theorem pure {a : α} (h : amount a ≤ advance) : Paid advance amount (pure a) := by
  intro s p a' p' _ hrun
  cases hrun
  exact Nat.add_le_add_right h _

theorem throw (fault : Malformation) : Paid advance amount (throw fault) := by
  intro s p a p' _ hrun
  cases hrun

/-- What the first answer has been paid with is there for the second. -/
theorem bind {amount' : β → Nat} {f : α → Evaluation β} (hx : Paid advance amount x)
    (hf : ∀ a, Paid (amount a) amount' (f a)) : Paid advance amount' (x >>= f) := by
  intro s p b p' hlocals hrun
  obtain ⟨a, p₁, hfirst, hrest⟩ := exists_of_bind_run hrun
  exact Nat.le_trans (hf a s p₁ b p' hlocals hrest) (hx s p a p₁ hlocals hfirst)

/-- More that is paid in advance is left over. -/
theorem more (hx : Paid advance amount x) (extra : Nat) :
    Paid (advance + extra) (fun a => amount a + extra) x := by
  intro s p a p' hlocals hrun
  have hle := hx s p a p' hlocals hrun
  dsimp only
  omega

theorem mono {amount' : α → Nat} {advance' : Nat} (hx : Paid advance amount x)
    (hadvance : advance ≤ advance') (hamount : ∀ a, amount' a ≤ amount a) :
    Paid advance' amount' x := by
  intro s p a p' hlocals hrun
  have hle := hx s p a p' hlocals hrun
  have hle' := hamount a
  omega

theorem lift {answer : Except Malformation α} (h : ∀ a, answer = .ok a → amount a ≤ advance) :
    Paid advance amount (liftM answer) := by
  cases answer with
  | error fault => exact throw fault
  | ok a => exact pure (h a rfl)

theorem mapM {ι : Type} {g : ι → Evaluation α} {items : List ι}
    (hg : ∀ item ∈ items, Paid 0 amount (g item)) :
    Paid 0 (fun answers => (answers.map amount).sum) (items.mapM g) := by
  induction items with
  | nil =>
      rw [List.mapM_nil]
      exact pure (Nat.le_refl 0)
  | cons item items ih =>
      rw [List.mapM_cons]
      refine bind (hg item List.mem_cons_self) ?_
      intro a
      have hrest := (ih fun item hitem => hg item (List.mem_cons_of_mem _ hitem)).more (amount a)
      refine bind (hrest.mono (Nat.le_of_eq (Nat.zero_add _)) fun _ => Nat.le_refl _) ?_
      intro rest
      refine pure ?_
      rw [List.map_cons, List.sum_cons, Nat.add_comm]

theorem step : Paid 0 (fun _ => 1) step := by
  intro s p a p' _ hrun
  obtain ⟨hbudget, -, rfl⟩ := step_run_eq_ok.mp hrun
  dsimp only
  omega

end Paid

theorem paid_pay (n : Nat) : Paid 0 (fun _ => n) (pay n) := by
  induction n with
  | zero => exact .pure (Nat.le_refl 0)
  | succ n ih =>
      refine .bind .step ?_
      intro _
      exact (ih.more 1).mono (Nat.le_refl _) fun _ => Nat.le_refl _

/-- No evaluation gives any steps back. -/
theorem accumulates_paid : Accumulates fun _ _ x => Paid 0 (fun _ => 0) x where
  pure := fun _ => .pure (Nat.le_refl 0)
  throw := fun _ _ => .throw _
  bind := fun hx hf => hx.bind hf
  mono := fun _ hx => hx

section

variable {inner : Expression → Evaluation Value}

theorem paid_evaluatePart {part : Part Expression}
    (hinner : ∀ o ∈ part.operands, Paid 0 (·.size + 1) (inner o)) :
    Paid 0 Value.sizeOfEntries (evaluatePart inner part) := by
  cases part with
  | entry key e =>
      rw [Part.operands, List.forall_mem_append] at hinner
      refine .bind (accumulates_paid.evaluateKey (fun _ => 0)
        fun o ho => (hinner.1 o ho).mono (Nat.le_refl 0) fun _ => Nat.zero_le _) ?_
      intro text
      refine .bind (hinner.2 e (List.mem_singleton_self e)) ?_
      intro value
      exact .pure (Nat.le_refl _)
  | spread e =>
      refine .bind (hinner e (List.mem_singleton_self e)) ?_
      intro value
      cases value with
      | object entries => exact .pure (Nat.le_succ _)
      | undefined => exact .pure (Nat.zero_le _)
      | null => exact .pure (Nat.zero_le _)
      | boolean b => exact .throw _
      | number x => exact .throw _
      | string s => exact .throw _
      | array items => exact .throw _

/-- One level pays for the items and entries that it puts together with the steps of the
operands. -/
theorem paid_evaluateNode {e : Expression}
    (hinner : ∀ o ∈ e.operands, Paid 0 (·.size + 1) (inner o))
    (hlookUp : ∀ name, e = .identifier name → Paid 0 Value.size (lookUpPaying inner name)) :
    Paid 0 Value.size (evaluateNodeBy lookUpPaying inner e) := by
  have hany : ∀ o ∈ e.operands, Paid 0 (fun _ => 0) (inner o) :=
    fun o ho => (hinner o ho).mono (Nat.le_refl 0) fun _ => Nat.zero_le _
  have hparts := accumulates_paid
  cases e with
  | undefined => exact .pure (Nat.le_refl 0)
  | null => exact .pure (Nat.le_refl 0)
  | boolean b => exact .pure (Nat.le_refl 0)
  | number x => exact .pure (Nat.le_refl 0)
  | string s => exact .pure (Nat.le_refl 0)
  | identifier name => exact hlookUp name rfl
  | template texts parts =>
      refine .bind (hparts.evaluateTemplate (fun _ => 0) texts hany) ?_
      intro text
      exact .pure (Nat.le_refl 0)
  | array items =>
      refine .bind (.mapM hinner) ?_
      intro values
      refine .pure ?_
      rw [Value.size, Value.sizeOfItems_eq_sum]
  | object parts =>
      refine .bind (.mapM fun part hpart => paid_evaluatePart fun o ho =>
        hinner o (List.mem_flatMap.mpr ⟨part, hpart, ho⟩)) ?_
      intro rows
      refine .pure ?_
      rw [Value.size, Value.sizeOfEntries_flatten]
  | member owner key =>
      rw [operands, List.forall_mem_cons] at hinner hany
      refine .bind hinner.1 ?_
      intro object
      refine .bind ((hparts.evaluateKey (fun _ => 0) hany.2).more object.size |>.mono ?_
        fun _ => Nat.le_refl _) ?_
      · omega
      · intro text
        refine .lift ?_
        intro value hvalue
        have hle := Value.size_property hvalue
        omega
  | conditional test whenTrue whenFalse =>
      simp only [operands, List.forall_mem_cons] at hinner
      refine .bind hinner.1 ?_
      intro answer
      split
      · exact hinner.2.1.mono (Nat.zero_le _) fun _ => Nat.le_succ _
      · exact hinner.2.2.1.mono (Nat.zero_le _) fun _ => Nat.le_succ _
  | unary op operand =>
      refine .bind (hinner operand (List.mem_singleton_self operand)) ?_
      intro value
      refine .pure ?_
      rw [Value.size_unary]
      exact Nat.zero_le _
  | binary op left right =>
      simp only [operands, List.forall_mem_cons] at hinner
      refine .bind hinner.1 ?_
      intro value
      refine .bind (hinner.2.1.mono (Nat.zero_le _) fun _ => Nat.le_refl _) ?_
      intro value'
      refine .pure ?_
      rw [Value.size_binary]
      exact Nat.zero_le _
  | logical op left right =>
      simp only [operands, List.forall_mem_cons] at hinner
      refine .bind hinner.1 ?_
      intro value
      split
      · exact .pure (Nat.le_succ _)
      · exact hinner.2.1.mono (Nat.zero_le _) fun _ => Nat.le_succ _

theorem paid_lookUpPaying (hinner : ∀ e, Paid 0 (·.size + 1) (inner e)) (name : String) :
    Paid 0 Value.size (lookUpPaying inner name) := by
  intro s p value p' hlocals hrun
  have hlocal : s.locals.lookup name = none := by rw [hlocals]; rfl
  cases hknown : p.known.lookup name with
  | some found =>
      rw [lookUpPaying_run_of_known hlocal hknown] at hrun
      have hcopy : Paid 0 Value.size (pay found.size >>= fun _ => pure found) :=
        .bind (paid_pay found.size) fun _ => .pure (Nat.le_refl _)
      exact hcopy s p value p' hlocals hrun
  | none =>
      rw [lookUpPaying_run_of_unknown hknown] at hrun
      rcases lookUp_run_eq_ok.mp hrun with ⟨hsome, -⟩ | ⟨-, hsome, -⟩ |
        ⟨-, -, initial, p₁, -, -, hinitial, rfl⟩
      · rw [hlocal] at hsome
        cases hsome
      · rw [hknown] at hsome
        cases hsome
      · let s' : Surroundings := { s with resolving := name :: s.resolving }
        have hle := hinner initial s' p value p₁ hlocals hinitial
        exact Nat.le_trans (Nat.add_le_add_right (Nat.le_succ _) _) hle

end

/-- A value is smaller than the number of steps that it takes with copies paid for. -/
theorem paid_evaluateWithin (levels : Nat) (e : Expression) :
    Paid 0 (·.size + 1) (paying levels e) := by
  induction levels generalizing e with
  | zero =>
      intro s p value p' _ hrun
      exact absurd hrun (evaluateWithinBy_zero_ne_ok _ e _ _ _ _)
  | succ levels ih =>
      refine .bind .step ?_
      intro _
      exact ((paid_evaluateNode (fun o _ => ih o) fun name _ => paid_lookUpPaying ih name).more
        1).mono (Nat.le_refl _) fun _ => Nat.le_refl _

/-! ## Copies beside steps -/

/-- In so many steps so much more is paid for, and each step doubles at most what has been paid for.
No value that is kept is larger than what has been paid for by then. -/
def Doubles (steps cost : Nat) (known known' : List (String × Value)) : Prop :=
  ∀ paid, (∀ kept ∈ known, kept.2.size ≤ paid) →
    paid + cost + 1 ≤ (paid + 1) * 2 ^ steps ∧ ∀ kept ∈ known', kept.2.size ≤ paid + cost

namespace Doubles

variable {steps cost : Nat} {known known₁ known' : List (String × Value)} {name : String}
  {value : Value}

theorem refl (known : List (String × Value)) : Doubles 0 0 known known :=
  fun _ hkept => ⟨Nat.le_of_eq (Nat.mul_one _).symm, hkept⟩

theorem trans {steps' cost' : Nat} (h : Doubles steps cost known known₁)
    (h' : Doubles steps' cost' known₁ known') :
    Doubles (steps + steps') (cost + cost') known known' := by
  intro paid hkept
  obtain ⟨hpaid, hkept₁⟩ := h paid hkept
  obtain ⟨hpaid', hkept'⟩ := h' (paid + cost) hkept₁
  refine ⟨?_, fun kept hmem => Nat.add_assoc paid cost cost' ▸ hkept' kept hmem⟩
  calc paid + (cost + cost') + 1
      = paid + cost + cost' + 1 := by omega
    _ ≤ (paid + cost + 1) * 2 ^ steps' := hpaid'
    _ ≤ (paid + 1) * 2 ^ steps * 2 ^ steps' := Nat.mul_le_mul_right _ hpaid
    _ = (paid + 1) * 2 ^ (steps + steps') := by rw [Nat.pow_add, Nat.mul_assoc]

/-- A step together with the copy of a value that is kept. -/
theorem copy (h : known.lookup name = some value) : Doubles 1 (1 + value.size) known known := by
  intro paid hkept
  obtain ⟨before, after, hsplit, -⟩ := List.lookup_eq_some_iff.mp h
  have hmem : (name, value) ∈ known := by
    rw [hsplit]
    exact List.mem_append_right _ List.mem_cons_self
  have hsize : value.size ≤ paid := hkept _ hmem
  exact ⟨by omega, fun kept hmem => Nat.le_add_right_of_le (hkept kept hmem)⟩

theorem step (known : List (String × Value)) : Doubles 1 1 known known :=
  fun paid hkept => ⟨by omega, fun kept hmem => Nat.le_add_right_of_le (hkept kept hmem)⟩

/-- A value may be kept that has been paid for meanwhile. -/
theorem keep (h : Doubles steps cost known known') (hvalue : value.size ≤ cost) :
    Doubles steps cost known ((name, value) :: known') := by
  intro paid hkept
  obtain ⟨hpaid, hkept'⟩ := h paid hkept
  exact ⟨hpaid, List.forall_mem_cons.mpr ⟨Nat.le_add_left_of_le hvalue, hkept'⟩⟩

end Doubles

/-- What succeeds also succeeds in the other way, if there are as many steps as copies and steps
take there. -/
def Repays {α : Type} (x y : Evaluation α) : Prop :=
  ∀ s p a p', s.locals = [] → s.expired = false → (x.run s).run p = .ok (a, p') →
    ∃ steps cost, Doubles steps cost p.known p'.known ∧
      (∀ budget, (x.run s).run ⟨budget, p.known⟩ =
        Outcome.within (.ok (a, p'.known)) steps budget) ∧
      ∀ budget, (y.run s).run ⟨budget, p.known⟩ = Outcome.within (.ok (a, p'.known)) cost budget

theorem corresponds_repays : Corresponds (ι := Unit) fun _ x y => Repays x (y ()) where
  pure := by
    intro α a s p a' p' _ _ hrun
    cases hrun
    exact ⟨0, 0, .refl _, fun _ => rfl, fun _ => rfl⟩
  throw := by
    intro α fault s p a p' _ _ hrun
    cases hrun
  bind := by
    intro α β x y f g hx hf s p b p' hlocals hexpired hrun
    obtain ⟨a, p₁, hfirst, hrest⟩ := exists_of_bind_run hrun
    obtain ⟨steps, cost, hdoubles, hsteps, hcost⟩ := hx s p a p₁ hlocals hexpired hfirst
    obtain ⟨steps', cost', hdoubles', hsteps', hcost'⟩ := hf a s p₁ b p' hlocals hexpired hrest
    exact ⟨steps + steps', cost + cost', hdoubles.trans hdoubles',
      bind_run_within hsteps hsteps', bind_run_within hcost hcost'⟩

theorem repays_step : Repays step step := by
  intro s p a p' _ hexpired hrun
  obtain ⟨-, -, rfl⟩ := step_run_eq_ok.mp hrun
  exact ⟨1, 1, .step _, step_run_within hexpired, step_run_within hexpired⟩

section

variable {inner inner' : Expression → Evaluation Value} {name : String} {value : Value}
  {s : Surroundings} {known known' : List (String × Value)}

theorem pay_run_within (hexpired : s.expired = false) (n budget : Nat) :
    ((pay n).run s).run ⟨budget, known⟩ = Outcome.within (.ok (⟨⟩, known)) n budget := by
  induction n generalizing budget with
  | zero => rfl
  | succ n ih =>
      have hrun := bind_run_within (f := fun _ => pay n) (step_run_within hexpired) ih budget
      rwa [Nat.add_comm] at hrun

theorem lookUp_run_within_of_known (hlocal : s.locals.lookup name = none)
    (hknown : known.lookup name = some value) (budget : Nat) :
    ((lookUp inner name).run s).run ⟨budget, known⟩ =
      Outcome.within (.ok (value, known)) 0 budget :=
  lookUp_run_eq_ok.mpr (Or.inr (Or.inl ⟨hlocal, hknown, rfl⟩))

theorem lookUpPaying_run_within_of_known (hexpired : s.expired = false)
    (hlocal : s.locals.lookup name = none) (hknown : known.lookup name = some value)
    (budget : Nat) :
    ((lookUpPaying inner name).run s).run ⟨budget, known⟩ =
      Outcome.within (.ok (value, known)) value.size budget := by
  have hcopy : ∀ budget, ((pay value.size >>= fun _ => pure value).run s).run ⟨budget, known⟩ =
      Outcome.within (.ok (value, known)) (value.size + 0) budget :=
    bind_run_within (pay_run_within hexpired _) fun _ => rfl
  rw [lookUpPaying_run_of_known hlocal hknown]
  exact hcopy budget

/-- The value of a constant is kept after the steps of its initial value. -/
theorem lookUp_run_within_of_initial {initial : Expression} {cost : Nat}
    (hlocal : s.locals.lookup name = none) (hknown : known.lookup name = none)
    (hget : s.constants.get? name = some initial) (hfresh : name ∉ s.resolving)
    (hinitial : ∀ budget, ((inner initial).run { s with resolving := name :: s.resolving }).run
      ⟨budget, known⟩ = Outcome.within (.ok (value, known')) cost budget) (budget : Nat) :
    ((lookUp inner name).run s).run ⟨budget, known⟩ =
      Outcome.within (.ok (value, (name, value) :: known')) cost budget := by
  rw [lookUp_run, hlocal]
  dsimp only
  rw [hknown, hget]
  dsimp only
  rw [if_neg hfresh, hinitial budget, Outcome.within_keep]

/-- A name takes the step that it is evaluated with and the steps for the copy of a value, or those
for the value of a constant that has not been kept yet. -/
theorem repays_identifier (hinner : ∀ e, Repays (inner e) (inner' e))
    (hpaid : ∀ e, Paid 0 (·.size + 1) (inner' e)) (name : String) :
    Repays (step >>= fun _ => lookUp inner name) (step >>= fun _ => lookUpPaying inner' name) := by
  rintro s ⟨budget, known⟩ value p' hlocals hexpired hrun
  have hlocal : s.locals.lookup name = none := by rw [hlocals]; rfl
  obtain ⟨_, p₁, hstep, hlookUp⟩ := exists_of_bind_run hrun
  obtain ⟨-, -, rfl⟩ := step_run_eq_ok.mp hstep
  dsimp only at hlookUp
  rcases lookUp_run_eq_ok.mp hlookUp with ⟨hsome, -⟩ | ⟨-, hknown, rfl⟩ |
    ⟨-, hknown, initial, p₁, hget, hfresh, hinitial, rfl⟩
  · rw [hlocal] at hsome
    cases hsome
  · change known.lookup name = some value at hknown
    refine ⟨1 + 0, 1 + value.size, .copy hknown, ?_, ?_⟩
    · exact bind_run_within (step_run_within hexpired)
        (lookUp_run_within_of_known hlocal hknown)
    · exact bind_run_within (step_run_within hexpired)
        (lookUpPaying_run_within_of_known hexpired hlocal hknown)
  · change known.lookup name = none at hknown
    let s' : Surroundings := { s with resolving := name :: s.resolving }
    obtain ⟨steps, cost, hdoubles, hsteps, hcost⟩ :=
      hinner initial s' _ value p₁ hlocals hexpired hinitial
    have hall : ((inner' initial).run s').run ⟨cost, known⟩ =
        .ok (value, ⟨cost - cost, p₁.known⟩) := (hcost cost).trans (if_pos (Nat.le_refl cost))
    have hsize := hpaid initial s' _ value _ hlocals hall
    refine ⟨1 + steps, 1 + cost, (Doubles.step _).trans (hdoubles.keep ?_), ?_, ?_⟩
    · dsimp only at hsize
      omega
    · exact bind_run_within (step_run_within hexpired)
        (lookUp_run_within_of_initial hlocal hknown hget hfresh hsteps)
    · refine bind_run_within (step_run_within hexpired) ?_
      intro budget
      rw [lookUpPaying_run_of_unknown (p := ⟨budget, known⟩) hknown]
      exact lookUp_run_within_of_initial hlocal hknown hget hfresh hcost budget

end

/-- An evaluation that succeeds has the same value with copies paid for. -/
theorem repays_evaluateWithin (levels : Nat) (e : Expression) :
    Repays (evaluateWithin levels e) (paying levels e) := by
  rw [← evaluateWithinBy_lookUp]
  induction levels generalizing e with
  | zero =>
      intro s p value p' _ _ hrun
      exact absurd hrun (evaluateWithinBy_zero_ne_ok _ e _ _ _ _)
  | succ levels ih =>
      by_cases hname : ∃ name, e = .identifier name
      · obtain ⟨name, rfl⟩ := hname
        exact repays_identifier ih (paid_evaluateWithin levels) name
      · exact corresponds_repays.evaluateWithinBy_of_ne (fun _ => lookUpPaying) (fun _ => levels)
          repays_step ih fun name h => hname ⟨name, h⟩

/-! ## Values of expressions -/

/-- What succeeds had time for a step. -/
theorem expired_of_evaluateWithin {levels : Nat} {e : Expression} {s : Surroundings}
    {p p' : Progress} {value : Value}
    (h : ((evaluateWithin levels e).run s).run p = .ok (value, p')) : s.expired = false := by
  cases levels with
  | zero =>
      obtain ⟨_, _, hstep, -⟩ := exists_of_bind_run h
      exact (step_run_eq_ok.mp hstep).2.1
  | succ levels =>
      obtain ⟨_, _, hstep, -⟩ := exists_of_bind_run h
      exact (step_run_eq_ok.mp hstep).2.1

theorem map_fst_within {value : Value} {known : List (String × Value)} (cost budget : Nat) :
    (Outcome.within (.ok (value, known)) cost budget).map Prod.fst =
      if cost ≤ budget then .ok value else .error .timedOut := by
  unfold Outcome.within
  split
  · rfl
  · rfl

/-- An evaluation that succeeds takes so many steps, and so many with copies paid for.  The value is
smaller than the latter, and they are fewer than two to the power of the former. -/
theorem size_of_evaluate {e : Expression} {constants : Constants} {limits : Limits} {value : Value}
    (h : evaluate e [] constants limits = .ok value) :
    ∃ steps cost,
      (∀ maxSteps, evaluate e [] constants { limits with maxSteps } =
        if steps ≤ maxSteps then .ok value else .error .timedOut) ∧
      (∀ maxSteps, evaluatePaying e constants { limits with maxSteps } =
        if cost ≤ maxSteps then .ok value else .error .timedOut) ∧
      value.size < cost ∧ cost < 2 ^ steps := by
  rw [evaluate_eq, map_fst_eq_ok] at h
  obtain ⟨p, hrun⟩ := h
  obtain ⟨steps, cost, hdoubles, hsteps, hcost⟩ :=
    repays_evaluateWithin maxNesting e _ _ value p rfl (expired_of_evaluateWithin hrun) hrun
  refine ⟨steps, cost, ?_, ?_, ?_, ?_⟩
  · intro maxSteps
    rw [evaluate_eq]
    exact (congrArg _ (hsteps maxSteps)).trans (map_fst_within steps maxSteps)
  · intro maxSteps
    exact (congrArg _ (hcost maxSteps)).trans (map_fst_within cost maxSteps)
  · have hsize := paid_evaluateWithin maxNesting e _ _ value _ rfl
      ((hcost cost).trans (if_pos (Nat.le_refl cost)))
    dsimp only at hsize
    omega
  · have hpaid := (hdoubles 0 fun _ hmem => nomatch hmem).1
    omega

end StaticStyle.Expression
