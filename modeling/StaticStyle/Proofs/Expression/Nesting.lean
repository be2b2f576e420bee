import StaticStyle.Proofs.Expression.Levels
import StaticStyle.Proofs.Expression.Outstanding
import StaticStyle.Proofs.Style.Nesting

/-!
# How deep the value of an expression nests

Each level of an evaluation adds one level of arrays and objects at most, but a value that is kept
has its own levels and takes no level of the evaluation.  So a value nests no deeper than the levels
of the evaluation and those of the deepest value that is kept (`Expression.yields_evaluateWithin`).

A value is kept only when that of a constant has been worked out
(`Expression.changes_evaluateWithin`), once at most for each, and by an evaluation with fewer
levels.  This bounds all values by the number of constants (`Expression.nesting_of_evaluate`).  An
expression that nests so many levels deep with the constants in it has a value that nests no
deeper, whatever is kept (`Expression.nesting_of_evaluate_of_fits`).
-/

namespace StaticStyle.Expression

open StaticStyle.Evaluation

section

variable (constants : Constants) (B : String → Value → Prop) {α β : Type}

/-- More and more values are kept, and if all that are kept in the end are bounded, the answer has
a property. -/
def Yields (Q : α → Prop) (x : Evaluation α) : Prop :=
  ∀ resolving expired p a p',
    (x.run ⟨[], constants, resolving, expired⟩).run p = .ok (a, p') →
      p.known <:+ p'.known ∧ ((∀ kept ∈ p'.known, B kept.1 kept.2) → Q a)

end

section

variable {constants : Constants} {B : String → Value → Prop} {α β : Type}

namespace Yields

variable {Q : α → Prop} {R : β → Prop} {x : Evaluation α} {f : α → Evaluation β}

theorem pure {a : α} (h : Q a) : Yields constants B Q (pure a) := by
  intro resolving expired p a' p' hrun
  cases hrun
  exact ⟨List.suffix_refl _, fun _ => h⟩

theorem throw (fault : Malformation) : Yields constants B Q (throw fault : Evaluation α) := by
  intro resolving expired p a p' hrun
  cases hrun

theorem mono {Q' : α → Prop} (hx : Yields constants B Q x) (h : ∀ a, Q a → Q' a) :
    Yields constants B Q' x := by
  intro resolving expired p a p' hrun
  obtain ⟨hgrows, ha⟩ := hx resolving expired p a p' hrun
  exact ⟨hgrows, fun hkept => h a (ha hkept)⟩

/-- What is kept after the first evaluation is kept in the end. -/
theorem bind (hx : Yields constants B Q x)
    (hf : ∀ a, Yields constants B (fun b => Q a → R b) (f a)) :
    Yields constants B R (x >>= f) := by
  intro resolving expired p b p' hrun
  obtain ⟨a, p₁, hfirst, hrest⟩ := exists_of_bind_run hrun
  obtain ⟨hgrows, ha⟩ := hx resolving expired p a p₁ hfirst
  obtain ⟨hgrows', hb⟩ := hf a resolving expired p₁ b p' hrest
  refine ⟨hgrows.trans hgrows', ?_⟩
  intro hkept
  exact hb hkept (ha fun kept hmem => hkept kept (hgrows'.subset hmem))

theorem lift {answer : Except Malformation α} (h : ∀ a, answer = .ok a → Q a) :
    Yields constants B Q (liftM answer) := by
  cases answer with
  | error fault => exact throw fault
  | ok a => exact pure (h a rfl)

theorem mapM {ι : Type} {g : ι → Evaluation α} {items : List ι}
    (hg : ∀ item ∈ items, Yields constants B Q (g item)) :
    Yields constants B (fun answers => ∀ a ∈ answers, Q a) (items.mapM g) := by
  induction items with
  | nil =>
      rw [List.mapM_nil]
      exact pure fun a ha => nomatch ha
  | cons item items ih =>
      rw [List.mapM_cons]
      refine bind (hg item List.mem_cons_self) ?_
      intro a
      refine bind (ih fun item hitem => hg item (List.mem_cons_of_mem _ hitem)) ?_
      intro rest
      exact pure fun hrest ha => List.forall_mem_cons.mpr ⟨ha, hrest⟩

theorem step : Yields constants B (fun _ => True) step := by
  intro resolving expired p a p' hrun
  obtain ⟨-, -, rfl⟩ := step_run_eq_ok.mp hrun
  exact ⟨List.suffix_refl _, fun _ => trivial⟩

end Yields

/-- Where the answer does not matter, each part of an evaluation may be taken for itself. -/
theorem accumulates_yields (constants : Constants) (B : String → Value → Prop) :
    Accumulates fun _ _ x => Yields constants B (fun _ => True) x where
  pure := fun _ => .pure trivial
  throw := fun _ _ => .throw _
  bind := fun hx hf => hx.bind fun a => (hf a).mono fun _ _ _ => trivial
  mono := fun _ hx => hx

/-! ## One level -/

section

variable {inner : Expression → Evaluation Value} {n : Nat}

theorem yields_evaluatePart {part : Part Expression}
    (hinner : ∀ o ∈ part.operands, Yields constants B (·.nesting ≤ n) (inner o)) :
    Yields constants B (fun entries => ∀ entry ∈ entries, entry.2.nesting ≤ n)
      (evaluatePart inner part) := by
  cases part with
  | entry key e =>
      rw [Part.operands, List.forall_mem_append] at hinner
      refine .bind ((accumulates_yields constants B).evaluateKey (fun _ => 0)
        fun o ho => (hinner.1 o ho).mono fun _ _ => trivial) ?_
      intro text
      refine .bind (hinner.2 e (List.mem_singleton_self e)) ?_
      intro value
      refine .pure ?_
      intro hvalue _ entry hentry
      obtain rfl := List.mem_singleton.mp hentry
      exact hvalue
  | spread e =>
      refine .bind (hinner e (List.mem_singleton_self e)) ?_
      intro value
      cases value with
      | object entries =>
          refine .pure ?_
          intro hvalue
          rw [Value.nesting] at hvalue
          exact Value.nestingOfEntries_le_iff.mp (Nat.le_of_succ_le hvalue)
      | undefined => exact .pure fun _ _ hentry => absurd hentry List.not_mem_nil
      | null => exact .pure fun _ _ hentry => absurd hentry List.not_mem_nil
      | boolean b => exact .throw _
      | number x => exact .throw _
      | string s => exact .throw _
      | array items => exact .throw _

/-- One level of evaluation makes a value one level deeper than those of the operands. -/
theorem yields_evaluateNode {e : Expression}
    (hinner : ∀ o ∈ e.operands, Yields constants B (·.nesting ≤ n) (inner o))
    (hlookUp : ∀ name, e = .identifier name →
      Yields constants B (·.nesting ≤ n + 1) (lookUp inner name)) :
    Yields constants B (·.nesting ≤ n + 1) (evaluateNode inner e) := by
  have hany : ∀ o ∈ e.operands, Yields constants B (fun _ => True) (inner o) :=
    fun o ho => (hinner o ho).mono fun _ _ => trivial
  have hparts := accumulates_yields constants B
  cases e with
  | undefined => exact .pure (Nat.zero_le _)
  | null => exact .pure (Nat.zero_le _)
  | boolean b => exact .pure (Nat.zero_le _)
  | number x => exact .pure (Nat.zero_le _)
  | string s => exact .pure (Nat.zero_le _)
  | identifier name => exact hlookUp name rfl
  | template texts parts =>
      refine .bind (hparts.evaluateTemplate (fun _ => 0) texts hany) ?_
      intro text
      exact .pure fun _ => Nat.zero_le _
  | array items =>
      refine .bind (.mapM hinner) ?_
      intro values
      refine .pure ?_
      intro hvalues
      rw [Value.nesting]
      exact Nat.succ_le_succ (Value.nestingOfItems_le_iff.mpr hvalues)
  | object parts =>
      refine .bind (.mapM fun part hpart => yields_evaluatePart fun o ho =>
        hinner o (List.mem_flatMap.mpr ⟨part, hpart, ho⟩)) ?_
      intro entries
      refine .pure ?_
      intro hentries
      rw [Value.nesting]
      refine Nat.succ_le_succ (Value.nestingOfEntries_le_iff.mpr ?_)
      intro entry hentry
      obtain ⟨some, hsome, hentry⟩ := List.mem_flatten.mp hentry
      exact hentries some hsome entry hentry
  | member owner key =>
      rw [operands, List.forall_mem_cons] at hinner hany
      refine .bind hinner.1 ?_
      intro object
      refine .bind (hparts.evaluateKey (fun _ => 0) hany.2) ?_
      intro text
      refine .lift ?_
      intro value hvalue _ hobject
      have hle := Value.nesting_property hvalue
      omega
  | conditional test whenTrue whenFalse =>
      simp only [operands, List.forall_mem_cons] at hinner
      refine .bind hinner.1 ?_
      intro answer
      split
      · exact hinner.2.1.mono fun value hvalue _ => Nat.le_succ_of_le hvalue
      · exact hinner.2.2.1.mono fun value hvalue _ => Nat.le_succ_of_le hvalue
  | unary op operand =>
      refine .bind (hinner operand (List.mem_singleton_self operand)) ?_
      intro value
      refine .pure fun _ => ?_
      rw [Value.nesting_unary]
      exact Nat.zero_le _
  | binary op left right =>
      simp only [operands, List.forall_mem_cons] at hinner
      refine .bind hinner.1 ?_
      intro value
      refine .bind hinner.2.1 ?_
      intro value'
      refine .pure fun _ _ => ?_
      rw [Value.nesting_binary]
      exact Nat.zero_le _
  | logical op left right =>
      simp only [operands, List.forall_mem_cons] at hinner
      refine .bind hinner.1 ?_
      intro value
      split
      · exact .pure fun hvalue => Nat.le_succ_of_le hvalue
      · exact hinner.2.1.mono fun value' hvalue' _ => Nat.le_succ_of_le hvalue'

/-- A name stands for a value that is kept, or for one that has just been found. -/
theorem yields_lookUp {name : String} {Q : Value → Prop}
    (hknown : ∀ value, B name value → Q value)
    (hinitial : ∀ initial, constants.get? name = some initial →
      Yields constants B Q (inner initial)) :
    Yields constants B Q (lookUp inner name) := by
  intro resolving expired p value p' hrun
  rcases lookUp_run_eq_ok.mp hrun with ⟨hlocal, -⟩ | ⟨-, hfound, rfl⟩ |
    ⟨-, -, initial, p₁, hget, -, hrest, rfl⟩
  · cases hlocal
  · obtain ⟨before, after, hsplit, -⟩ := List.lookup_eq_some_iff.mp hfound
    have hmem : (name, value) ∈ p.known := by
      rw [hsplit]
      exact List.mem_append_right _ List.mem_cons_self
    exact ⟨List.suffix_refl _, fun hkept => hknown value (hkept _ hmem)⟩
  · obtain ⟨hgrows, hvalue⟩ := hinitial initial hget _ _ _ _ _ hrest
    refine ⟨hgrows.trans (List.suffix_cons _ _), ?_⟩
    intro hkept
    exact hvalue fun kept hmem => hkept kept (List.mem_cons_of_mem _ hmem)

end

/-! ## Values beside those that are kept -/

/-- A value nests no deeper than the levels of the evaluation and those of the deepest value that
is kept. -/
theorem yields_evaluateWithin (d levels : Nat) (e : Expression) :
    Yields constants (fun _ kept => kept.nesting ≤ d + 1) (·.nesting ≤ d + levels)
      (evaluateWithin levels e) := by
  induction levels generalizing e with
  | zero =>
      refine .bind .step ?_
      intro _
      exact .throw _
  | succ levels ih =>
      refine .bind .step ?_
      intro _
      refine (yields_evaluateNode (fun o _ => ih o) ?_).mono fun value hvalue _ => hvalue
      rintro name rfl
      refine yields_lookUp ?_ ?_
      · intro value hvalue
        omega
      · intro initial _
        exact (ih initial).mono fun value hvalue => Nat.le_succ_of_le hvalue

/-! ## Values that are kept -/

/-- The values that are kept go from some to others, with some constants being worked out. -/
abbrev Change := List String → List (String × Value) → List (String × Value) → Prop

/-- An evaluation changes the values that are kept in a certain way. -/
def Changes (constants : Constants) (R : Change) (x : Evaluation α) : Prop :=
  ∀ resolving expired p a p',
    (x.run ⟨[], constants, resolving, expired⟩).run p = .ok (a, p') →
      R resolving p.known p'.known

/-- Nothing and one change after another are changes as well. -/
structure Closed (R : Change) : Prop where
  refl : ∀ resolving known, R resolving known known
  trans : ∀ {resolving known known₁ known'},
    R resolving known known₁ → R resolving known₁ known' → R resolving known known'

theorem accumulates_changes {R : Change} (hR : Closed R) (constants : Constants) :
    Accumulates fun _ _ x => Changes constants R x where
  pure := by
    intro α a resolving expired p a' p' hrun
    cases hrun
    exact hR.refl resolving _
  throw := by
    intro α fault _ _ resolving expired p a p' hrun
    cases hrun
  bind := by
    intro α β _ _ x f hx hf resolving expired p b p' hrun
    obtain ⟨a, p₁, hfirst, hrest⟩ := exists_of_bind_run hrun
    exact hR.trans (hx resolving expired p a p₁ hfirst) (hf a resolving expired p₁ b p' hrest)
  mono := fun _ hx => hx

theorem changes_step {R : Change} (hR : Closed R) : Changes constants R step := by
  intro resolving expired p a p' hrun
  obtain ⟨-, -, rfl⟩ := step_run_eq_ok.mp hrun
  exact hR.refl resolving _

/-- A value is kept when that of a constant has been worked out, and at no other time. -/
theorem changes_evaluateWithin {R : Change} (hR : Closed R) {levels : Nat}
    (hkeep : ∀ lower name initial value resolving expired p p', lower < levels →
      constants.get? name = some initial → p.known.lookup name = none → name ∉ resolving →
      ((evaluateWithin lower initial).run ⟨[], constants, name :: resolving, expired⟩).run p =
        .ok (value, p') →
      R (name :: resolving) p.known p'.known →
      R resolving p.known ((name, value) :: p'.known)) (e : Expression) :
    Changes constants R (evaluateWithin levels e) := by
  have hchanges := accumulates_changes hR constants
  induction levels generalizing e with
  | zero =>
      intro resolving expired p a p' hrun
      obtain ⟨_, _, _, hrun⟩ := exists_of_bind_run hrun
      cases hrun
  | succ levels ih =>
      have hinner := ih fun lower name initial value resolving expired p p' hlower =>
        hkeep lower name initial value resolving expired p p' (Nat.lt_succ_of_lt hlower)
      refine hchanges.bind (m := 0) (n := 0) (changes_step hR) ?_
      intro _
      refine hchanges.evaluateNode (fun _ => 0) (fun o _ => hinner o) ?_
      rintro name - resolving expired p value p' hrun
      rcases lookUp_run_eq_ok.mp hrun with ⟨hlocal, -⟩ | ⟨-, -, rfl⟩ |
        ⟨-, hunknown, initial, p₁, hget, hfresh, hrest, rfl⟩
      · cases hlocal
      · exact hR.refl resolving _
      · exact hkeep levels name initial value resolving expired p p₁ (Nat.lt_succ_self levels) hget
          hunknown hfresh hrest (hinner initial _ expired p value p₁ hrest)

/-- What goes on to hold. -/
theorem closed_imp (I : List (String × Value) → Prop) :
    Closed fun _ known known' => I known → I known' where
  refl := fun _ _ h => h
  trans := fun h h' hknown => h' (h hknown)

/-- An amount that does not grow. -/
theorem closed_le (amount : List String → List (String × Value) → Nat) :
    Closed fun resolving known known' => amount resolving known' ≤ amount resolving known where
  refl := fun _ _ => Nat.le_refl _
  trans := fun h h' => Nat.le_trans h' h

/-- The values that are kept nest deeper and deeper, each by so many levels at most. -/
def Graded : List (String × Value) → Prop
  | [] => True
  | kept :: earlier =>
      kept.2.nesting ≤ (maxNesting - 2) * (earlier.length + 1) + 1 ∧ Graded earlier

theorem Graded.nesting_le {known : List (String × Value)} (h : Graded known) :
    ∀ kept ∈ known, kept.2.nesting ≤ (maxNesting - 2) * known.length + 1 := by
  induction known with
  | nil => exact fun kept hmem => nomatch hmem
  | cons kept earlier ih =>
      obtain ⟨hkept, hearlier⟩ := h
      refine List.forall_mem_cons.mpr ⟨hkept, ?_⟩
      intro other hother
      have hle := ih hearlier other hother
      rw [List.length_cons, Nat.mul_succ]
      omega

/-- The values that are kept go on to be graded, as the initial value of a constant has a level less
than the name of the constant. -/
theorem changes_graded (e : Expression) :
    Changes constants (fun _ known known' => Graded known → Graded known')
      (evaluateWithin maxNesting e) := by
  refine changes_evaluateWithin (closed_imp Graded) ?_ e
  intro lower name initial value resolving expired p p' hlower _ _ _ hrun hkept hgraded
  refine ⟨?_, hkept hgraded⟩
  have hvalue := (yields_evaluateWithin _ lower initial _ expired p value p' hrun).2
    (hkept hgraded).nesting_le
  have hmax : 2 ≤ maxNesting := by decide
  dsimp only
  rw [Nat.mul_succ]
  omega

/-- A constant is outstanding no more once its value is kept. -/
theorem changes_outstanding (levels : Nat) (e : Expression) :
    Changes constants
      (fun resolving known known' =>
        known'.length + outstanding (fun _ => 1) constants known' resolving ≤
          known.length + outstanding (fun _ => 1) constants known resolving)
      (evaluateWithin levels e) := by
  refine changes_evaluateWithin (closed_le fun resolving known =>
    known.length + outstanding (fun _ => 1) constants known resolving) ?_ e
  intro lower name initial value resolving expired p p' _ hget hunknown hfresh _ hcount
  have hout := weight_add_outstanding_le (fun _ => 1) hget hunknown hfresh
  rw [outstanding_keep, List.length_cons]
  omega

/-- The value of each constant is kept once at most. -/
theorem length_known_le {e : Expression} {levels : Nat} {expired : Bool} {budget : Nat}
    {value : Value} {p : Progress}
    (h : ((evaluateWithin levels e).run ⟨[], constants, [], expired⟩).run ⟨budget, []⟩ =
      .ok (value, p)) : p.known.length ≤ constants.length := by
  have hcount := changes_outstanding levels e [] expired ⟨budget, []⟩ value p h
  have hall := outstanding_le (fun _ => 1) constants [] []
  have hlength : weigh (fun _ => 1) constants = constants.length := by simp [weigh]
  dsimp only at hcount
  rw [List.length_nil] at hcount
  omega

/-! ## Values of expressions -/

variable {e : Expression} {value : Value} {limits : Limits}

/-- A value nests no deeper than the levels of an evaluation and those that each constant may
add. -/
theorem nesting_of_evaluate (h : evaluate e [] constants limits = .ok value) :
    value.nesting ≤ maxNesting + (maxNesting - 2) * constants.length := by
  rw [evaluate_eq, map_fst_eq_ok] at h
  obtain ⟨p, hrun⟩ := h
  have hgraded := changes_graded e _ _ _ _ _ hrun trivial
  have hvalue := (yields_evaluateWithin _ _ e _ _ _ _ _ hrun).2 hgraded.nesting_le
  have hcount := Nat.mul_le_mul_left (maxNesting - 2) (length_known_le hrun)
  omega

/-- A value that is kept nests no deeper than the constant, the constants in it among them. -/
def Fitted (constants : Constants) (name : String) (value : Value) : Prop :=
  ∃ initial, constants.get? name = some initial ∧
    ∀ n, Fits [] constants n initial → value.nesting ≤ n

theorem yields_of_fits {n : Nat} (h : Fits [] constants n e) (levels : Nat) :
    Yields constants (Fitted constants) (·.nesting ≤ n) (evaluateWithin levels e) := by
  induction levels generalizing n e with
  | zero =>
      refine .bind .step ?_
      intro _
      exact .throw _
  | succ levels ih =>
      cases n with
      | zero => exact h.elim
      | succ n =>
          refine .bind .step ?_
          intro _
          refine (yields_evaluateNode ?_ ?_).mono fun value hvalue _ => hvalue
          · intro o ho
            exact ih (h o (operands_subset_nextLevel e ho))
          · rintro name rfl
            have hinitial : ∀ initial, constants.get? name = some initial →
                Fits [] constants n initial := by
              intro initial hget
              refine h initial ?_
              rw [nextLevel_identifier rfl, hget]
              exact List.mem_singleton_self initial
            refine yields_lookUp ?_ ?_
            · rintro value ⟨initial, hget, hvalue⟩
              exact Nat.le_succ_of_le (hvalue n (hinitial initial hget))
            · intro initial hget
              exact (ih (hinitial initial hget)).mono fun value hvalue => Nat.le_succ_of_le hvalue

theorem changes_fitted (levels : Nat) (e : Expression) :
    Changes constants
      (fun _ known known' => (∀ kept ∈ known, Fitted constants kept.1 kept.2) →
        ∀ kept ∈ known', Fitted constants kept.1 kept.2)
      (evaluateWithin levels e) := by
  refine changes_evaluateWithin (closed_imp _) ?_ e
  intro lower name initial value resolving expired p p' _ hget _ _ hrun hkept hfitted
  refine List.forall_mem_cons.mpr ⟨⟨initial, hget, ?_⟩, hkept hfitted⟩
  intro n hfits
  exact (yields_of_fits hfits lower _ expired p value p' hrun).2 (hkept hfitted)

/-- The value of an expression nests no deeper than the expression, the constants in it among
them. -/
theorem nesting_of_evaluate_of_fits {n : Nat} (hfits : Fits [] constants n e)
    (h : evaluate e [] constants limits = .ok value) : value.nesting ≤ n := by
  rw [evaluate_eq, map_fst_eq_ok] at h
  obtain ⟨p, hrun⟩ := h
  refine (yields_of_fits hfits _ _ _ _ _ _ hrun).2 (changes_fitted _ e _ _ _ _ _ hrun ?_)
  exact fun kept hmem => nomatch hmem

end

end StaticStyle.Expression
