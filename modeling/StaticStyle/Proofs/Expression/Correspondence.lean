import StaticStyle.Proofs.Expression.Names
import StaticStyle.Proofs.Expression.Running

/-!
# Evaluations that correspond

Two evaluators that differ in how they look up names take the same steps everywhere else.  A
relation between evaluations that holds between like answers and like failures, and between like
evaluations one after another (`Expression.Corresponds`), holds between the evaluations of an
expression if it holds between those of its parts and between the look-ups of its names
(`Expression.Corresponds.evaluateNodeBy`).

An evaluation may correspond to a family of evaluations, such as those with more and more levels.
The other evaluator may be given the expression with other names, and the names in the expression
may be known to be among some.
-/

namespace StaticStyle.Expression

open StaticStyle.Evaluation

/-! ## Other ways to look up names -/

section

variable (lookUpBy : (Expression → Evaluation Value) → String → Evaluation Value)

/-- The value of an expression by its outermost node, names being looked up in a way of their
own. -/
def evaluateNodeBy (inner : Expression → Evaluation Value) : Expression → Evaluation Value
  | .identifier name => lookUpBy inner name
  | e => evaluateNode inner e

/-- The value of an expression that takes at most so many levels, names being looked up in a way of
their own. -/
def evaluateWithinBy : (levels : Nat) → Expression → Evaluation Value
  | 0, _ => do step; throw .tooDeep
  | levels + 1, e => do step; evaluateNodeBy lookUpBy (evaluateWithinBy levels) e

end

theorem evaluateNodeBy_lookUp (inner : Expression → Evaluation Value) (e : Expression) :
    evaluateNodeBy lookUp inner e = evaluateNode inner e := by
  cases e with
  | identifier name => rfl
  | _ => rfl

theorem evaluateWithinBy_lookUp (levels : Nat) :
    evaluateWithinBy lookUp levels = evaluateWithin levels := by
  induction levels with
  | zero => rfl
  | succ levels ih =>
      funext e
      rw [evaluateWithinBy, evaluateWithin, ih, evaluateNodeBy_lookUp]

/-- Without any level, no expression has a value. -/
theorem evaluateWithinBy_zero_ne_ok
    (lookUpBy : (Expression → Evaluation Value) → String → Evaluation Value) (e : Expression)
    (s : Surroundings) (p p' : Progress) (value : Value) :
    ((evaluateWithinBy lookUpBy 0 e).run s).run p ≠ .ok (value, p') := by
  intro h
  obtain ⟨_, p₁, -, hthrow⟩ := exists_of_bind_run h
  cases hthrow

/-! ## Relations between evaluations -/

/-- A relation between an evaluation and a family of evaluations that is kept when evaluations are
put together. -/
structure Corresponds {ι : Type} (R : ∀ α : Type, Evaluation α → (ι → Evaluation α) → Prop) :
    Prop where
  pure : ∀ {α : Type} (a : α), R α (pure a) fun _ => pure a
  throw : ∀ {α : Type} (fault : Malformation), R α (throw fault) fun _ => throw fault
  bind : ∀ {α β : Type} {x : Evaluation α} {y : ι → Evaluation α} {f : α → Evaluation β}
    {g : ι → α → Evaluation β}, R α x y → (∀ a, R β (f a) fun i => g i a) →
      R β (x >>= f) fun i => y i >>= g i

namespace Corresponds

variable {ι : Type} {R : ∀ α : Type, Evaluation α → (ι → Evaluation α) → Prop} {α : Type}

theorem lift (h : Corresponds R) (answer : Except Malformation α) :
    R α (liftM answer) fun _ => liftM answer := by
  cases answer with
  | error fault => exact h.throw fault
  | ok a => exact h.pure a

theorem mapM {A B : Type} (h : Corresponds R) {f : A → Evaluation α} {g : ι → B → Evaluation α}
    {r : A → B} {items : List A} (hf : ∀ item ∈ items, R α (f item) fun i => g i (r item)) :
    R (List α) (items.mapM f) fun i => (items.map r).mapM (g i) := by
  induction items with
  | nil =>
      simp only [List.map_nil, List.mapM_nil]
      exact h.pure []
  | cons item items ih =>
      simp only [List.map_cons, List.mapM_cons]
      refine h.bind (hf item List.mem_cons_self) ?_
      intro a
      refine h.bind (ih fun item hitem => hf item (List.mem_cons_of_mem _ hitem)) ?_
      intro rest
      exact h.pure (a :: rest)

section

variable {among : String → Prop} {ρ : String → String} {inner : Expression → Evaluation Value}
  {inner' : ι → Expression → Evaluation Value}

theorem evaluateKey (h : Corresponds R)
    (hinner : ∀ e, (∀ name ∈ e.names, among name) → R Value (inner e) fun i => inner' i (e.rename ρ))
    {key : Key Expression} (hnames : ∀ name ∈ namesOfKey key, among name) :
    R String (evaluateKey inner key) fun i => evaluateKey (inner' i) (renameKey ρ key) := by
  cases key with
  | fixed text => exact h.pure text
  | computed e =>
      simp only [Expression.evaluateKey, renameKey]
      refine h.bind (hinner e hnames) ?_
      intro value
      exact h.pure value.toText

theorem evaluatePart (h : Corresponds R)
    (hinner : ∀ e, (∀ name ∈ e.names, among name) → R Value (inner e) fun i => inner' i (e.rename ρ))
    {part : Part Expression} (hnames : ∀ name ∈ namesOfPart part, among name) :
    R (List (String × Value)) (evaluatePart inner part)
      fun i => evaluatePart (inner' i) (renamePart ρ part) := by
  cases part with
  | entry key e =>
      rw [namesOfPart, List.forall_mem_append] at hnames
      simp only [Expression.evaluatePart, renamePart]
      refine h.bind (h.evaluateKey hinner hnames.1) ?_
      intro text
      refine h.bind (hinner e hnames.2) ?_
      intro value
      exact h.pure [(text, value)]
  | spread e =>
      simp only [Expression.evaluatePart, renamePart]
      refine h.bind (hinner e hnames) ?_
      intro value
      cases value with
      | object entries => exact h.pure entries
      | undefined => exact h.pure []
      | null => exact h.pure []
      | boolean b => exact h.throw _
      | number x => exact h.throw _
      | string s => exact h.throw _
      | array items => exact h.throw _

theorem evaluateTemplate (h : Corresponds R)
    (hinner : ∀ e, (∀ name ∈ e.names, among name) → R Value (inner e) fun i => inner' i (e.rename ρ))
    (texts : List String) {parts : List Expression}
    (hnames : ∀ name ∈ namesOfAll parts, among name) :
    R String (evaluateTemplate inner texts parts)
      fun i => evaluateTemplate (inner' i) texts (renameAll ρ parts) := by
  induction texts generalizing parts with
  | nil => exact h.pure ""
  | cons text texts ih =>
      cases texts with
      | nil => exact h.pure text
      | cons text' texts =>
          cases parts with
          | nil => exact h.pure _
          | cons e parts =>
              rw [namesOfAll, List.forall_mem_append] at hnames
              simp only [Expression.evaluateTemplate, renameAll]
              refine h.bind (hinner e hnames.1) ?_
              intro value
              refine h.bind (ih hnames.2) ?_
              intro rest
              exact h.pure _

/-- The evaluations of an expression correspond if those of its parts and the look-ups of its
names do. -/
theorem evaluateNodeBy (h : Corresponds R)
    {lookUpBy : (Expression → Evaluation Value) → String → Evaluation Value}
    {lookUpBy' : ι → (Expression → Evaluation Value) → String → Evaluation Value}
    (hinner : ∀ e, (∀ name ∈ e.names, among name) → R Value (inner e) fun i => inner' i (e.rename ρ))
    (hlookUp : ∀ name, among name →
      R Value (lookUpBy inner name) fun i => lookUpBy' i (inner' i) (ρ name))
    {e : Expression} (hnames : ∀ name ∈ e.names, among name) :
    R Value (evaluateNodeBy lookUpBy inner e)
      fun i => evaluateNodeBy (lookUpBy' i) (inner' i) (e.rename ρ) := by
  cases e with
  | undefined => exact h.pure _
  | null => exact h.pure _
  | boolean b => exact h.pure _
  | number x => exact h.pure _
  | string s => exact h.pure _
  | template texts parts =>
      rw [names] at hnames
      simp only [Expression.evaluateNodeBy, evaluateNode, rename]
      refine h.bind (h.evaluateTemplate hinner texts hnames) ?_
      intro text
      exact h.pure _
  | array items =>
      rw [names] at hnames
      simp only [Expression.evaluateNodeBy, evaluateNode, rename, renameAll_eq_map]
      refine h.bind (h.mapM ?_) ?_
      · intro item hitem
        exact hinner item fun name hname => hnames name (mem_namesOfAll hitem hname)
      · intro values
        exact h.pure _
  | object parts =>
      rw [names] at hnames
      simp only [Expression.evaluateNodeBy, evaluateNode, rename, renameParts_eq_map]
      refine h.bind (h.mapM ?_) ?_
      · intro part hpart
        exact h.evaluatePart hinner fun name hname => hnames name (mem_namesOfParts hpart hname)
      · intro entries
        exact h.pure _
  | identifier name => exact hlookUp name (hnames name (List.mem_singleton_self name))
  | member owner key =>
      rw [names, List.forall_mem_append] at hnames
      simp only [Expression.evaluateNodeBy, evaluateNode, rename]
      refine h.bind (hinner owner hnames.1) ?_
      intro object
      refine h.bind (h.evaluateKey hinner hnames.2) ?_
      intro text
      exact h.lift _
  | conditional test whenTrue whenFalse =>
      rw [names, List.forall_mem_append, List.forall_mem_append] at hnames
      simp only [Expression.evaluateNodeBy, evaluateNode, rename]
      refine h.bind (hinner test hnames.1) ?_
      intro answer
      split
      · exact hinner whenTrue hnames.2.1
      · exact hinner whenFalse hnames.2.2
  | unary op operand =>
      simp only [Expression.evaluateNodeBy, evaluateNode, rename]
      refine h.bind (hinner operand hnames) ?_
      intro value
      exact h.pure _
  | binary op left right =>
      rw [names, List.forall_mem_append] at hnames
      simp only [Expression.evaluateNodeBy, evaluateNode, rename]
      refine h.bind (hinner left hnames.1) ?_
      intro value
      refine h.bind (hinner right hnames.2) ?_
      intro value'
      exact h.pure _
  | logical op left right =>
      rw [names, List.forall_mem_append] at hnames
      simp only [Expression.evaluateNodeBy, evaluateNode, rename]
      refine h.bind (hinner left hnames.1) ?_
      intro value
      split
      · exact h.pure _
      · exact hinner right hnames.2

end

section

variable {lookUpBy : (Expression → Evaluation Value) → String → Evaluation Value} {levels : Nat}

/-- No level at all. -/
theorem evaluateWithinBy_zero (h : Corresponds R)
    (lookUpBy' : ι → (Expression → Evaluation Value) → String → Evaluation Value)
    (hstep : R Unit step fun _ => step) (e e' : Expression) :
    R Value (evaluateWithinBy lookUpBy 0 e) fun i => evaluateWithinBy (lookUpBy' i) 0 e' := by
  refine h.bind hstep ?_
  intro _
  exact h.throw _

/-- One more level. -/
theorem evaluateWithinBy_rename (h : Corresponds R) {among : String → Prop} (ρ : String → String)
    (lookUpBy' : ι → (Expression → Evaluation Value) → String → Evaluation Value)
    (levels' : ι → Nat) (hstep : R Unit step fun _ => step)
    (hinner : ∀ e, (∀ name ∈ e.names, among name) → R Value (evaluateWithinBy lookUpBy levels e)
      fun i => evaluateWithinBy (lookUpBy' i) (levels' i) (e.rename ρ))
    (hlookUp : ∀ name, among name → R Value (lookUpBy (evaluateWithinBy lookUpBy levels) name)
      fun i => lookUpBy' i (evaluateWithinBy (lookUpBy' i) (levels' i)) (ρ name))
    {e : Expression} (hnames : ∀ name ∈ e.names, among name) :
    R Value (evaluateWithinBy lookUpBy (levels + 1) e)
      fun i => evaluateWithinBy (lookUpBy' i) (levels' i + 1) (e.rename ρ) := by
  refine h.bind hstep ?_
  intro _
  exact h.evaluateNodeBy hinner hlookUp hnames

/-- One more level, where the names stay. -/
theorem evaluateWithinBy_among (h : Corresponds R) {among : String → Prop}
    (lookUpBy' : ι → (Expression → Evaluation Value) → String → Evaluation Value)
    (levels' : ι → Nat) (hstep : R Unit step fun _ => step)
    (hinner : ∀ e, (∀ name ∈ e.names, among name) → R Value (evaluateWithinBy lookUpBy levels e)
      fun i => evaluateWithinBy (lookUpBy' i) (levels' i) e)
    (hlookUp : ∀ name, among name → R Value (lookUpBy (evaluateWithinBy lookUpBy levels) name)
      fun i => lookUpBy' i (evaluateWithinBy (lookUpBy' i) (levels' i)) name)
    {e : Expression} (hnames : ∀ name ∈ e.names, among name) :
    R Value (evaluateWithinBy lookUpBy (levels + 1) e)
      fun i => evaluateWithinBy (lookUpBy' i) (levels' i + 1) e := by
  have hsame : ∀ e : Expression, e.rename id = e := fun e => rename_eq_self e fun _ _ => rfl
  have hmore := h.evaluateWithinBy_rename id lookUpBy' levels' hstep
    (fun e he => by rw [hsame]; exact hinner e he) hlookUp hnames
  rwa [hsame] at hmore

/-- One more level for an expression that is no name. -/
theorem evaluateWithinBy_of_ne (h : Corresponds R)
    (lookUpBy' : ι → (Expression → Evaluation Value) → String → Evaluation Value)
    (levels' : ι → Nat) (hstep : R Unit step fun _ => step)
    (hinner : ∀ e, R Value (evaluateWithinBy lookUpBy levels e)
      fun i => evaluateWithinBy (lookUpBy' i) (levels' i) e)
    {e : Expression} (hname : ∀ name, e ≠ .identifier name) :
    R Value (evaluateWithinBy lookUpBy (levels + 1) e)
      fun i => evaluateWithinBy (lookUpBy' i) (levels' i + 1) e := by
  have hsame : ∀ e : Expression, e.rename id = e := fun e => rename_eq_self e fun _ _ => rfl
  have hany : ∀ name ∈ e.names, True := fun _ _ => trivial
  refine h.bind hstep ?_
  intro _
  -- No name is looked up at this node, so it does not matter how that is done.
  have hnode : R Value
      (Expression.evaluateNodeBy (fun _ _ => Pure.pure .undefined)
        (evaluateWithinBy lookUpBy levels) e)
      fun i => Expression.evaluateNodeBy (fun _ _ => Pure.pure .undefined)
        (evaluateWithinBy (lookUpBy' i) (levels' i)) (e.rename id) :=
    h.evaluateNodeBy (fun e _ => by rw [hsame]; exact hinner e) (fun _ _ => h.pure _) hany
  rw [hsame] at hnode
  cases e with
  | identifier name => exact absurd rfl (hname name)
  | _ => exact hnode

/-- One more level, whatever the names are. -/
theorem evaluateWithinBy (h : Corresponds R)
    (lookUpBy' : ι → (Expression → Evaluation Value) → String → Evaluation Value)
    (levels' : ι → Nat) (hstep : R Unit step fun _ => step)
    (hinner : ∀ e, R Value (evaluateWithinBy lookUpBy levels e)
      fun i => evaluateWithinBy (lookUpBy' i) (levels' i) e)
    (hlookUp : ∀ name, R Value (lookUpBy (evaluateWithinBy lookUpBy levels) name)
      fun i => lookUpBy' i (evaluateWithinBy (lookUpBy' i) (levels' i)) name)
    (e : Expression) :
    R Value (evaluateWithinBy lookUpBy (levels + 1) e)
      fun i => evaluateWithinBy (lookUpBy' i) (levels' i + 1) e := by
  have hany : ∀ name ∈ e.names, True := fun _ _ => trivial
  exact h.evaluateWithinBy_among lookUpBy' levels' hstep (fun e _ => hinner e)
    (fun name _ => hlookUp name) hany

end

end Corresponds

end StaticStyle.Expression
