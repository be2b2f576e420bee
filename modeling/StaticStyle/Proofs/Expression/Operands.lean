import Mathlib.Algebra.GroupWithZero.Nat
import StaticStyle.Proofs.Expression.Names
import StaticStyle.Proofs.Expression.Running

/-!
# The expressions in an expression

The operands of an expression are the expressions that stand right in it (`Expression.operands`).
One level of evaluation evaluates each of them once at most, or looks up a name.

A property of evaluations may come with an amount, such as the steps that are taken.  If it is
kept when evaluations are put together and their amounts are added up
(`Expression.Accumulates`), then one level of evaluation has it, with the amounts of the operands
(`Expression.Accumulates.evaluateNode`).
-/

namespace StaticStyle.Expression

open StaticStyle.Evaluation

/-! ## Operands -/

/-- The expressions in a key. -/
def Key.operands : Key Expression → List Expression
  | .fixed _ => []
  | .computed e => [e]

/-- The expressions in a part of an object. -/
def Part.operands : Part Expression → List Expression
  | .entry key value => key.operands ++ [value]
  | .spread e => [e]

/-- The expressions that stand right in an expression. -/
def operands : Expression → List Expression
  | .template _ parts => parts
  | .array items => items
  | .object parts => parts.flatMap Part.operands
  | .member owner key => owner :: key.operands
  | .conditional test whenTrue whenFalse => [test, whenTrue, whenFalse]
  | .unary _ operand => [operand]
  | .binary _ left right => [left, right]
  | .logical _ left right => [left, right]
  | _ => []

theorem names_subset_namesOfKey {o : Expression} {key : Key Expression} (ho : o ∈ key.operands) :
    o.names ⊆ namesOfKey key := by
  cases key with
  | fixed text => cases ho
  | computed e =>
      obtain rfl := List.mem_singleton.mp ho
      exact List.Subset.refl _

theorem names_subset_namesOfPart {o : Expression} {part : Part Expression}
    (ho : o ∈ part.operands) : o.names ⊆ namesOfPart part := by
  cases part with
  | entry key e =>
      rw [namesOfPart]
      rcases List.mem_append.mp ho with ho | ho
      · exact List.subset_append_of_subset_left _ (names_subset_namesOfKey ho)
      · obtain rfl := List.mem_singleton.mp ho
        exact List.subset_append_right _ _
  | spread e =>
      obtain rfl := List.mem_singleton.mp ho
      exact List.Subset.refl _

/-- An expression has the names of its operands. -/
theorem names_subset_of_mem_operands {e o : Expression} (ho : o ∈ e.operands) :
    o.names ⊆ e.names := by
  intro name hname
  cases e with
  | undefined => cases ho
  | null => cases ho
  | boolean b => cases ho
  | number x => cases ho
  | string s => cases ho
  | identifier other => cases ho
  | template texts parts =>
      rw [names]
      exact mem_namesOfAll ho hname
  | array items =>
      rw [names]
      exact mem_namesOfAll ho hname
  | object parts =>
      obtain ⟨part, hpart, ho⟩ := List.mem_flatMap.mp ho
      rw [names]
      exact mem_namesOfParts hpart (names_subset_namesOfPart ho hname)
  | member owner key =>
      rw [names, List.mem_append]
      rcases List.mem_cons.mp ho with rfl | ho
      · exact Or.inl hname
      · exact Or.inr (names_subset_namesOfKey ho hname)
  | conditional test whenTrue whenFalse =>
      simp only [operands, List.mem_cons, List.not_mem_nil, or_false] at ho
      simp only [names, List.mem_append]
      rcases ho with rfl | rfl | rfl
      · exact Or.inl hname
      · exact Or.inr (Or.inl hname)
      · exact Or.inr (Or.inr hname)
  | unary op operand =>
      obtain rfl := List.mem_singleton.mp ho
      rw [names]
      exact hname
  | binary op left right =>
      simp only [operands, List.mem_cons, List.not_mem_nil, or_false] at ho
      rw [names, List.mem_append]
      rcases ho with rfl | rfl
      · exact Or.inl hname
      · exact Or.inr hname
  | logical op left right =>
      simp only [operands, List.mem_cons, List.not_mem_nil, or_false] at ho
      rw [names, List.mem_append]
      rcases ho with rfl | rfl
      · exact Or.inl hname
      · exact Or.inr hname

/-! ## Amounts that add up -/

/-- A property with an amount that is kept when evaluations are put together.  The faults that
stand for the limits of an evaluation are left out. -/
structure Accumulates (P : Nat → ∀ α : Type, Evaluation α → Prop) : Prop where
  pure : ∀ {α : Type} (a : α), P 0 α (pure a)
  throw : ∀ {α : Type} {fault : Malformation}, fault ≠ .timedOut → fault ≠ .tooDeep →
    P 0 α (throw fault)
  bind : ∀ {α β : Type} {m n : Nat} {x : Evaluation α} {f : α → Evaluation β},
    P m α x → (∀ a, P n β (f a)) → P (m + n) β (x >>= f)
  mono : ∀ {α : Type} {m n : Nat} {x : Evaluation α}, m ≤ n → P m α x → P n α x

/-- The only fault in reading a property is that there is nothing to read it of. -/
theorem fault_of_property {v : Value} {key : String} {fault : Malformation}
    (h : v.property key = .error fault) : fault = .propertyOfNothing key v.toText := by
  cases v with
  | undefined => exact (Except.error.inj h).symm
  | null => exact (Except.error.inj h).symm
  | boolean b => cases h
  | number x => cases h
  | object entries => cases h
  | string s =>
      unfold Value.property at h
      dsimp only at h
      split at h
      · cases h
      · cases h
  | array items =>
      unfold Value.property at h
      dsimp only at h
      split at h
      · cases h
      · cases h

namespace Accumulates

variable {P : Nat → ∀ α : Type, Evaluation α → Prop} {α : Type}

/-- What comes behind costs nothing. -/
theorem bind_zero {β : Type} {n : Nat} {x : Evaluation α} (h : Accumulates P) (hx : P n α x)
    (f : α → Evaluation β) (hf : ∀ a, P 0 β (f a)) : P n β (x >>= f) :=
  h.bind hx hf

theorem property (h : Accumulates P) (v : Value) (key : String) :
    P 0 Value (liftM (v.property key)) := by
  cases hanswer : v.property key with
  | error fault =>
      obtain rfl := fault_of_property hanswer
      exact h.throw nofun nofun
  | ok value => exact h.pure value

theorem mapM {ι : Type} {f : ι → Evaluation α} {amount : ι → Nat} (h : Accumulates P)
    {items : List ι} (hf : ∀ item ∈ items, P (amount item) α (f item)) :
    P (items.map amount).sum (List α) (items.mapM f) := by
  induction items with
  | nil =>
      rw [List.mapM_nil]
      exact h.pure []
  | cons item items ih =>
      rw [List.mapM_cons, List.map_cons, List.sum_cons]
      refine h.bind (hf item List.mem_cons_self) ?_
      intro a
      refine h.bind_zero (ih fun item hitem => hf item (List.mem_cons_of_mem _ hitem)) _ ?_
      intro rest
      exact h.pure _

section

variable {inner : Expression → Evaluation Value} (amount : Expression → Nat)

theorem evaluateKey (h : Accumulates P) {key : Key Expression}
    (hinner : ∀ o ∈ key.operands, P (amount o) Value (inner o)) :
    P (key.operands.map amount).sum String (evaluateKey inner key) := by
  cases key with
  | fixed text => exact h.pure text
  | computed e =>
      rw [Key.operands, List.map_singleton, List.sum_singleton]
      refine h.bind_zero (hinner e (List.mem_singleton_self e)) _ ?_
      intro value
      exact h.pure _

theorem evaluatePart (h : Accumulates P) {part : Part Expression}
    (hinner : ∀ o ∈ part.operands, P (amount o) Value (inner o)) :
    P (part.operands.map amount).sum (List (String × Value)) (evaluatePart inner part) := by
  cases part with
  | entry key e =>
      rw [Part.operands, List.forall_mem_append] at hinner
      rw [Part.operands, List.map_append, List.sum_append, List.map_singleton, List.sum_singleton]
      refine h.bind (h.evaluateKey amount hinner.1) ?_
      intro text
      refine h.bind_zero (hinner.2 e (List.mem_singleton_self e)) _ ?_
      intro value
      exact h.pure _
  | spread e =>
      rw [Part.operands, List.map_singleton, List.sum_singleton]
      refine h.bind_zero (hinner e (List.mem_singleton_self e)) _ ?_
      intro value
      have hother := h.throw (α := List (String × Value))
        (show Malformation.spreadOfOther ≠ .timedOut by decide) (by decide)
      cases value with
      | object entries => exact h.pure entries
      | undefined => exact h.pure []
      | null => exact h.pure []
      | boolean b => exact hother
      | number x => exact hother
      | string s => exact hother
      | array items => exact hother

theorem evaluateTemplate (h : Accumulates P) (texts : List String) {parts : List Expression}
    (hinner : ∀ o ∈ parts, P (amount o) Value (inner o)) :
    P (parts.map amount).sum String (evaluateTemplate inner texts parts) := by
  induction texts generalizing parts with
  | nil => exact h.mono (Nat.zero_le _) (h.pure "")
  | cons text texts ih =>
      cases texts with
      | nil => exact h.mono (Nat.zero_le _) (h.pure text)
      | cons text' texts =>
          cases parts with
          | nil => exact h.pure _
          | cons e parts =>
              rw [List.map_cons, List.sum_cons]
              refine h.bind (hinner e List.mem_cons_self) ?_
              intro value
              refine h.bind_zero (ih fun o ho => hinner o (List.mem_cons_of_mem _ ho)) _ ?_
              intro rest
              exact h.pure _

theorem sum_flatMap_operands (amount : Expression → Nat) (parts : List (Part Expression)) :
    ((parts.flatMap Part.operands).map amount).sum =
      (parts.map fun part => (part.operands.map amount).sum).sum := by
  induction parts with
  | nil => rfl
  | cons part parts ih =>
      rw [List.flatMap_cons, List.map_append, List.sum_append, ih, List.map_cons, List.sum_cons]

/-- One level of evaluation has the property with the amounts of the operands. -/
theorem evaluateNode (h : Accumulates P) {e : Expression}
    (hinner : ∀ o ∈ e.operands, P (amount o) Value (inner o))
    (hlookUp : ∀ name, e = .identifier name → P 0 Value (lookUp inner name)) :
    P (e.operands.map amount).sum Value (evaluateNode inner e) := by
  cases e with
  | undefined => exact h.pure _
  | null => exact h.pure _
  | boolean b => exact h.pure _
  | number x => exact h.pure _
  | string s => exact h.pure _
  | identifier name => exact hlookUp name rfl
  | template texts parts =>
      refine h.bind_zero (h.evaluateTemplate amount texts hinner) _ ?_
      intro text
      exact h.pure _
  | array items =>
      refine h.bind_zero (h.mapM hinner) _ ?_
      intro values
      exact h.pure _
  | object parts =>
      rw [operands, sum_flatMap_operands]
      refine h.bind_zero (h.mapM fun part hpart => h.evaluatePart amount fun o ho => ?_) _ ?_
      · exact hinner o (List.mem_flatMap.mpr ⟨part, hpart, ho⟩)
      · intro entries
        exact h.pure _
  | member owner key =>
      rw [operands, List.forall_mem_cons] at hinner
      rw [operands, List.map_cons, List.sum_cons]
      refine h.bind hinner.1 ?_
      intro object
      refine h.bind_zero (h.evaluateKey amount hinner.2) _ ?_
      intro text
      exact h.property object text
  | conditional test whenTrue whenFalse =>
      simp only [operands, List.forall_mem_cons, List.map_cons, List.map_nil, List.sum_cons,
        List.sum_nil] at hinner ⊢
      refine h.bind hinner.1 ?_
      intro answer
      -- Only one of the two is evaluated.
      split
      · exact h.mono (by omega) hinner.2.1
      · exact h.mono (by omega) hinner.2.2.1
  | unary op operand =>
      rw [operands, List.map_singleton, List.sum_singleton]
      refine h.bind_zero (hinner operand (List.mem_singleton_self operand)) _ ?_
      intro value
      exact h.pure _
  | binary op left right =>
      simp only [operands, List.forall_mem_cons, List.map_cons, List.map_nil, List.sum_cons,
        List.sum_nil] at hinner ⊢
      refine h.bind hinner.1 ?_
      intro value
      refine h.bind_zero hinner.2.1 _ ?_
      intro value'
      exact h.pure _
  | logical op left right =>
      simp only [operands, List.forall_mem_cons, List.map_cons, List.map_nil, List.sum_cons,
        List.sum_nil] at hinner ⊢
      refine h.bind hinner.1 ?_
      intro value
      split
      · exact h.mono (Nat.zero_le _) (h.pure value)
      · exact hinner.2.1

end

end Accumulates

end StaticStyle.Expression
