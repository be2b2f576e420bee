import Mathlib.Data.List.Forall2
import StaticStyle.Proofs.Expression.Running

/-!
# What expressions mean

`Expression.Means` says what the value of an expression is, without a word about budgets, nesting
or values that are kept: a name stands for the local value if there is one, and otherwise for the
value of the constant.  An evaluation that succeeds gives the value that the expression means
(`Expression.means_of_evaluate`).

The evaluation keeps the values of constants, so the induction carries along that whatever is
kept is what the constant means (`Expression.Kept`).
-/

namespace StaticStyle.Expression

open StaticStyle.Evaluation

/-! ## Meanings -/

section

variable (locals : List (String × Value)) (constants : Constants)

mutual

/-- The value of an expression among local names and constants. -/
inductive Means : Expression → Value → Prop where
  | undefined : Means .undefined .undefined
  | null : Means .null .null
  | boolean {b} : Means (.boolean b) (.boolean b)
  | number {x} : Means (.number x) (.number x)
  | string {s} : Means (.string s) (.string s)
  | template {texts parts text} :
      TemplateMeans texts parts text → Means (.template texts parts) (.string text)
  | array {items values} :
      List.Forall₂ Means items values → Means (.array items) (.array values)
  | object {parts entries} :
      List.Forall₂ PartMeans parts entries → Means (.object parts) (.object entries.flatten)
  | fromLocal {name value} :
      locals.lookup name = some value → Means (.identifier name) value
  | fromConstant {name initial value} :
      locals.lookup name = none → constants.get? name = some initial → Means initial value →
      Means (.identifier name) value
  | member {owner key object text value} :
      Means owner object → KeyMeans key text → object.property text = .ok value →
      Means (.member owner key) value
  | whenTrue {test whenTrue whenFalse answer value} :
      Means test answer → answer.truthy = true → Means whenTrue value →
      Means (.conditional test whenTrue whenFalse) value
  | whenFalse {test whenTrue whenFalse answer value} :
      Means test answer → answer.truthy = false → Means whenFalse value →
      Means (.conditional test whenTrue whenFalse) value
  | unary {op operand value} :
      Means operand value → Means (.unary op operand) (value.unary op)
  | binary {op left right value value'} :
      Means left value → Means right value' → Means (.binary op left right) (value.binary op value')
  | settled {op left right value} :
      Means left value → value.settles op = true → Means (.logical op left right) value
  | unsettled {op left right value value'} :
      Means left value → value.settles op = false → Means right value' →
      Means (.logical op left right) value'

/-- The text of a key. -/
inductive KeyMeans : Key Expression → String → Prop where
  | fixed {name} : KeyMeans (.fixed name) name
  | computed {e value} : Means e value → KeyMeans (.computed e) value.toText

/-- The entries that a part gives an object. -/
inductive PartMeans : Part Expression → List (String × Value) → Prop where
  | entry {key text e value} :
      KeyMeans key text → Means e value → PartMeans (.entry key e) [(text, value)]
  | spread {e entries} : Means e (.object entries) → PartMeans (.spread e) entries
  | spreadUndefined {e} : Means e .undefined → PartMeans (.spread e) []
  | spreadNull {e} : Means e .null → PartMeans (.spread e) []

/-- The text of a template. -/
inductive TemplateMeans : List String → List Expression → String → Prop where
  | nil {parts} : TemplateMeans [] parts ""
  | last {text parts} : TemplateMeans [text] parts text
  | texts {text text' texts} :
      TemplateMeans (text :: text' :: texts) [] (text ++ String.join (text' :: texts))
  | part {text text' texts e parts value rest} :
      Means e value → TemplateMeans (text' :: texts) parts rest →
      TemplateMeans (text :: text' :: texts) (e :: parts) (text ++ value.toText ++ rest)

end

end

/-! ## What an evaluation gives -/

section

variable {locals : List (String × Value)} {constants : Constants} {α β : Type}

/-- The values that are kept are those of the constants, as far as no local name hides them. -/
def Kept (locals : List (String × Value)) (constants : Constants) (p : Progress) : Prop :=
  ∀ name value, p.known.lookup name = some value → locals.lookup name = none →
    ∃ initial, constants.get? name = some initial ∧ Means locals constants initial value

/-- If an evaluation succeeds, its answer has a property, and the values that are kept are still
those of the constants. -/
def Gives (locals : List (String × Value)) (constants : Constants) (x : Evaluation α)
    (Q : α → Prop) : Prop :=
  ∀ resolving expired p a p', Kept locals constants p →
    (x.run ⟨locals, constants, resolving, expired⟩).run p = .ok (a, p') →
      Q a ∧ Kept locals constants p'

namespace Gives

variable {x : Evaluation α} {Q : α → Prop}

theorem pure {a : α} (h : Q a) : Gives locals constants (pure a) Q := by
  intro resolving expired p a' p' hkept hrun
  rw [pure_run] at hrun
  cases hrun
  exact ⟨h, hkept⟩

theorem throw (fault : Malformation) : Gives locals constants (throw fault : Evaluation α) Q := by
  intro resolving expired p a p' hkept hrun
  cases hrun

theorem mono {R : α → Prop} (hx : Gives locals constants x Q) (h : ∀ a, Q a → R a) :
    Gives locals constants x R := by
  intro resolving expired p a p' hkept hrun
  obtain ⟨ha, hkept'⟩ := hx _ _ _ _ _ hkept hrun
  exact ⟨h a ha, hkept'⟩

theorem bind {f : α → Evaluation β} {R : β → Prop} (hx : Gives locals constants x Q)
    (hf : ∀ a, Q a → Gives locals constants (f a) R) : Gives locals constants (x >>= f) R := by
  intro resolving expired p b p' hkept hrun
  obtain ⟨a, p₁, hfirst, hrest⟩ := exists_of_bind_run hrun
  obtain ⟨ha, hkept'⟩ := hx _ _ _ _ _ hkept hfirst
  exact hf a ha _ _ _ _ _ hkept' hrest

theorem lift {answer : Except Malformation α} (h : ∀ a, answer = .ok a → Q a) :
    Gives locals constants (liftM answer) Q := by
  intro resolving expired p a p' hkept hrun
  rw [lift_run] at hrun
  cases hanswer : answer with
  | error fault =>
      rw [hanswer] at hrun
      cases hrun
  | ok a' =>
      rw [hanswer] at hrun
      cases hrun
      exact ⟨h a hanswer, hkept⟩

theorem mapM {ι : Type} {f : ι → Evaluation α} {R : ι → α → Prop}
    (h : ∀ item, Gives locals constants (f item) (R item)) (items : List ι) :
    Gives locals constants (items.mapM f) (List.Forall₂ R items) := by
  induction items with
  | nil =>
      rw [List.mapM_nil]
      exact pure .nil
  | cons item items ih =>
      rw [List.mapM_cons]
      refine bind (h item) ?_
      intro a ha
      refine bind ih ?_
      intro rest hrest
      exact pure (.cons ha hrest)

theorem step : Gives locals constants step fun _ => True := by
  intro resolving expired p a p' hkept hrun
  obtain ⟨-, -, rfl⟩ := step_run_eq_ok.mp hrun
  exact ⟨trivial, hkept⟩

end Gives

/-! ## Evaluation -/

section

variable {inner : Expression → Evaluation Value}

theorem Kept.keep {name : String} {initial : Expression} {value : Value} {p : Progress}
    (hkept : Kept locals constants p) (hget : constants.get? name = some initial)
    (hmeans : Means locals constants initial value) : Kept locals constants (p.keep name value) := by
  intro other found hfound hhidden
  rcases Progress.lookup_keep_eq_some.mp hfound with ⟨rfl, rfl⟩ | ⟨-, hfound⟩
  · exact ⟨initial, hget, hmeans⟩
  · exact hkept other found hfound hhidden

theorem gives_lookUp (hinner : ∀ e, Gives locals constants (inner e) (Means locals constants e))
    (name : String) :
    Gives locals constants (lookUp inner name) (Means locals constants (.identifier name)) := by
  intro resolving expired p value p' hkept hrun
  rcases lookUp_run_eq_ok.mp hrun with ⟨hlocal, rfl⟩ | ⟨hlocal, hknown, rfl⟩ |
    ⟨hlocal, -, initial, p₁, hget, -, hinitial, rfl⟩
  · exact ⟨.fromLocal hlocal, hkept⟩
  · obtain ⟨initial, hget, hmeans⟩ := hkept name value hknown hlocal
    exact ⟨.fromConstant hlocal hget hmeans, hkept⟩
  · obtain ⟨hmeans, hkept'⟩ := hinner initial _ _ _ _ _ hkept hinitial
    exact ⟨.fromConstant hlocal hget hmeans, hkept'.keep hget hmeans⟩

theorem gives_evaluateKey
    (hinner : ∀ e, Gives locals constants (inner e) (Means locals constants e))
    (key : Key Expression) :
    Gives locals constants (evaluateKey inner key) (KeyMeans locals constants key) := by
  cases key with
  | fixed name => exact .pure .fixed
  | computed e =>
      refine .bind (hinner e) ?_
      intro value hvalue
      exact .pure (.computed hvalue)

theorem gives_evaluatePart
    (hinner : ∀ e, Gives locals constants (inner e) (Means locals constants e))
    (part : Part Expression) :
    Gives locals constants (evaluatePart inner part) (PartMeans locals constants part) := by
  cases part with
  | entry key e =>
      refine .bind (gives_evaluateKey hinner key) ?_
      intro text htext
      refine .bind (hinner e) ?_
      intro value hvalue
      exact .pure (.entry htext hvalue)
  | spread e =>
      refine .bind (hinner e) ?_
      intro value hvalue
      cases value with
      | object entries => exact .pure (.spread hvalue)
      | undefined => exact .pure (.spreadUndefined hvalue)
      | null => exact .pure (.spreadNull hvalue)
      | boolean b => exact .throw _
      | number x => exact .throw _
      | string s => exact .throw _
      | array items => exact .throw _

theorem gives_evaluateTemplate
    (hinner : ∀ e, Gives locals constants (inner e) (Means locals constants e))
    (texts : List String) (parts : List Expression) :
    Gives locals constants (evaluateTemplate inner texts parts)
      (TemplateMeans locals constants texts parts) := by
  induction texts generalizing parts with
  | nil => exact .pure .nil
  | cons text texts ih =>
      cases texts with
      | nil => exact .pure .last
      | cons text' texts =>
          cases parts with
          | nil => exact .pure .texts
          | cons e parts =>
              refine .bind (hinner e) ?_
              intro value hvalue
              refine .bind (ih parts) ?_
              intro rest hrest
              exact .pure (.part hvalue hrest)

/-- One level of evaluation gives what the expression means if the levels below do. -/
theorem gives_evaluateNode
    (hinner : ∀ e, Gives locals constants (inner e) (Means locals constants e)) (e : Expression) :
    Gives locals constants (evaluateNode inner e) (Means locals constants e) := by
  cases e with
  | undefined => exact .pure .undefined
  | null => exact .pure .null
  | boolean b => exact .pure .boolean
  | number x => exact .pure .number
  | string s => exact .pure .string
  | template texts parts =>
      refine .bind (gives_evaluateTemplate hinner texts parts) ?_
      intro text htext
      exact .pure (.template htext)
  | array items =>
      refine .bind (.mapM hinner items) ?_
      intro values hvalues
      exact .pure (.array hvalues)
  | object parts =>
      refine .bind (.mapM (gives_evaluatePart hinner) parts) ?_
      intro entries hentries
      exact .pure (.object hentries)
  | identifier name => exact gives_lookUp hinner name
  | member owner key =>
      refine .bind (hinner owner) ?_
      intro object hobject
      refine .bind (gives_evaluateKey hinner key) ?_
      intro text htext
      exact .lift fun value hvalue => .member hobject htext hvalue
  | conditional test whenTrue whenFalse =>
      refine .bind (hinner test) ?_
      intro answer hanswer
      split
      · rename_i htruthy
        exact (hinner whenTrue).mono fun value hvalue => .whenTrue hanswer htruthy hvalue
      · rename_i htruthy
        rw [Bool.not_eq_true] at htruthy
        exact (hinner whenFalse).mono fun value hvalue => .whenFalse hanswer htruthy hvalue
  | unary op operand =>
      refine .bind (hinner operand) ?_
      intro value hvalue
      exact .pure (.unary hvalue)
  | binary op left right =>
      refine .bind (hinner left) ?_
      intro value hvalue
      refine .bind (hinner right) ?_
      intro value' hvalue'
      exact .pure (.binary hvalue hvalue')
  | logical op left right =>
      refine .bind (hinner left) ?_
      intro value hvalue
      split
      · rename_i hsettles
        exact .pure (.settled hvalue hsettles)
      · rename_i hsettles
        rw [Bool.not_eq_true] at hsettles
        exact (hinner right).mono fun value' hvalue' => .unsettled hvalue hsettles hvalue'

end

theorem gives_evaluateWithin (levels : Nat) (e : Expression) :
    Gives locals constants (evaluateWithin levels e) (Means locals constants e) := by
  induction levels generalizing e with
  | zero =>
      refine .bind .step ?_
      intro _ _
      exact .throw _
  | succ levels ih =>
      refine .bind .step ?_
      intro _ _
      exact gives_evaluateNode ih e

/-- An evaluation that succeeds gives the value that the expression means. -/
theorem means_of_evaluate {e : Expression} {limits : Limits} {value : Value}
    (h : evaluate e locals constants limits = .ok value) : Means locals constants e value := by
  rw [evaluate_eq] at h
  obtain ⟨p, hrun⟩ := map_fst_eq_ok.mp h
  have hkept : Kept locals constants ⟨limits.maxSteps, []⟩ := by
    intro name known hknown
    cases hknown
  exact (gives_evaluateWithin maxNesting e _ _ _ _ _ hkept hrun).1

end

end StaticStyle.Expression
