import StaticStyle.Declaration.Basic
import StaticStyle.Proofs.Expression.Nesting
import StaticStyle.Proofs.Running
import StaticStyle.Proofs.Script.Rules

/-!
# How deep a static style nests

The levels that an evaluation may take are not those that its value has.  A constant takes levels
where its value is found and none where it has been kept, so a style can have more levels than an
evaluation, and another order of the same properties can come to no style at all
(`Declaration.nesting_by_order`).

The style of an argument never has more levels than that with as many as an evaluation may take for
each constant.  If the argument nests no deeper than an evaluation may, the constants in it among
them, then neither does its style, and no order of its properties is too deep
(`Declaration.nesting_bounded`).
-/

namespace StaticStyle.Declaration

open StaticStyle.Syntax (Tree)
open StaticStyle.Expression (Limits Fits)

variable {text : String} {constants : Constants} {limits : Limits} {e : Expression} {style : Style}

/-- The expression that a text comes to, if it is no function of the theme. -/
def expressionOf (text : String) : Except Malformation Expression := do
  Expression.ofTree (← parse text)

/-- The style of an expression. -/
def evaluateStyle (e : Expression) (constants : Constants) (limits : Limits) :
    Except Malformation Style := do
  (← Expression.evaluate e [] (limits.level.restrict constants) limits).toStyle

/-- A text is a static declaration if its expression has a style. -/
theorem read_eq_of_expressionOf (h : expressionOf text = .ok e) :
    read text constants limits =
      ((evaluateStyle e constants limits).map .static).mapError (.malformed text) := by
  obtain ⟨tree, htree, he⟩ := bind_eq_ok_iff.mp h
  unfold read
  rw [htree]
  change (ofTree text tree constants limits).mapError _ = _
  congr 1
  unfold ofTree
  dsimp only
  split
  · -- An arrow function is no expression.
    cases he
  · rw [he]
    unfold evaluateStyle
    change (Expression.evaluate e [] _ limits >>= _) = _
    cases Expression.evaluate e [] (limits.level.restrict constants) limits with
    | error fault => rfl
    | ok value =>
        change (value.toStyle >>= _) = value.toStyle.map _
        cases value.toStyle with
        | error fault => rfl
        | ok style => rfl

/-- Only an expression has a static style. -/
theorem exists_of_read_static (h : read text constants limits = .ok (.static style)) :
    ∃ e value, expressionOf text = .ok e ∧
      Expression.evaluate e [] (limits.level.restrict constants) limits = .ok value ∧
      value.toStyle = .ok style := by
  unfold read at h
  rw [mapError_eq_ok_iff] at h
  obtain ⟨tree, htree, h⟩ := bind_eq_ok_iff.mp h
  unfold ofTree at h
  dsimp only at h
  split at h
  · obtain ⟨parts, -, h⟩ := bind_eq_ok_iff.mp h
    cases h
  · obtain ⟨e, he, h⟩ := bind_eq_ok_iff.mp h
    obtain ⟨value, hvalue, h⟩ := bind_eq_ok_iff.mp h
    obtain ⟨style', hstyle, h⟩ := bind_eq_ok_iff.mp h
    cases h
    exact ⟨e, value, bind_eq_ok_iff.mpr ⟨tree, htree, he⟩, hvalue, hstyle⟩

theorem read_ne_tooDeep (h : expressionOf text = .ok e)
    (hfits : Fits [] (limits.level.restrict constants) maxNesting e) :
    read text constants limits ≠ .error (.malformed text .tooDeep) := by
  have hevaluate := Expression.evaluate_ne_tooDeep_of_fits hfits limits
  rw [read_eq_of_expressionOf h]
  unfold evaluateStyle
  cases hvalue : Expression.evaluate e [] (limits.level.restrict constants) limits with
  | error fault =>
      intro hdeep
      cases hdeep
      exact hevaluate hvalue
  | ok value =>
      intro hdeep
      change (value.toStyle.map _).mapError _ = _ at hdeep
      cases hstyle : value.toStyle with
      | error fault =>
          rw [hstyle] at hdeep
          cases hdeep
          exact value.toStyle_ne_tooDeep hstyle
      | ok style =>
          rw [hstyle] at hdeep
          cases hdeep

/-- A static style has no more levels than an evaluation and those that each constant may add.  If
its text with the constants in it nests no deeper than an evaluation may, then it has no more levels
than an evaluation, and its text with the properties of its object in any other order is not too
deep either. -/
theorem nesting_bounded (text : String) (constants : Constants) (limits : Limits) :
    (∀ style, read text constants limits = .ok (.static style) →
      style.nesting ≤ maxNesting + (maxNesting - 2) * (limits.level.restrict constants).length) ∧
    ∀ e, expressionOf text = .ok e → Fits [] (limits.level.restrict constants) maxNesting e →
      (∀ style, read text constants limits = .ok (.static style) → style.nesting ≤ maxNesting) ∧
        ∀ parts text' parts', e = .object parts → expressionOf text' = .ok (.object parts') →
          parts.Perm parts' →
          read text' constants limits ≠ .error (.malformed text' .tooDeep) := by
  refine ⟨?_, fun e he hfits => ⟨?_, ?_⟩⟩
  · intro style hread
    obtain ⟨e, value, -, hvalue, hstyle⟩ := exists_of_read_static hread
    rw [Value.nesting_toStyle hstyle]
    exact Expression.nesting_of_evaluate hvalue
  · intro style hread
    obtain ⟨e', value, he', hvalue, hstyle⟩ := exists_of_read_static hread
    obtain rfl := Except.ok.inj (he.symm.trans he')
    rw [Value.nesting_toStyle hstyle]
    exact Expression.nesting_of_evaluate_of_fits hfits hvalue
  · rintro parts text' parts' rfl htext' hperm
    exact read_ne_tooDeep htext' (hfits.perm hperm)

/-! ## Chains of constants -/

/-- Limits under which an argument may refer to constants. -/
def folded : Limits := { Limits.default with level := .moduleConstants }

/-- Objects in each other with an expression in the innermost. -/
def nested : (levels : Nat) → Expression → Expression
  | 0, e => e
  | levels + 1, e => .object [.entry (.fixed "x") (nested levels e)]

/-- Two constants, each as many levels deep, and the first in the second. -/
def chained (levels : Nat) : Constants :=
  [("a", nested levels (.object [])), ("b", nested levels (.identifier "a"))]

/-- How many levels a declaration has that is static. -/
def nesting? : Declaration → Option Nat
  | .static style => some style.nesting
  | .themed _ => none

theorem exists_static_of_nesting {n : Nat}
    (h : (read text constants limits).toOption.map nesting? = some (some n)) :
    ∃ style, read text constants limits = .ok (.static style) ∧ style.nesting = n := by
  obtain ⟨d, hread, hd⟩ := Running.exists_of_toOption h
  cases d with
  | static style => exact ⟨style, hread, Option.some.inj hd⟩
  | themed f => cases hd

/-- A property with a name for its value. -/
def naming (pair : String × String) : Expression.Part Expression :=
  .entry (.fixed pair.1) (.identifier pair.2)

/-- The name that a property has for its value. -/
def named? : Expression.Part Expression → Option (String × String)
  | .entry (.fixed key) (.identifier name) => some (key, name)
  | _ => none

/-- The properties of an object that has only names for their values. -/
def namings? : Expression → Option (List (String × String))
  | .object parts => parts.mapM named?
  | _ => none

theorem eq_naming_of_named {part : Expression.Part Expression} {pair : String × String}
    (h : named? part = some pair) : part = naming pair := by
  unfold named? at h
  split at h
  · cases h
    rfl
  · cases h

theorem eq_map_naming {parts : List (Expression.Part Expression)} {pairs : List (String × String)}
    (h : parts.mapM named? = some pairs) : parts = pairs.map naming := by
  induction parts generalizing pairs with
  | nil =>
      cases h
      rfl
  | cons part parts ih =>
      rw [List.mapM_cons] at h
      obtain ⟨pair, hpair, h⟩ := Option.bind_eq_some_iff.mp h
      obtain ⟨rest, hrest, h⟩ := Option.bind_eq_some_iff.mp h
      cases h
      rw [List.map_cons, eq_naming_of_named hpair, ih hrest]

theorem expressionOf_eq_of_namings {pairs : List (String × String)}
    (h : (expressionOf text).toOption.map namings? = some (some pairs)) :
    expressionOf text = .ok (.object (pairs.map naming)) := by
  obtain ⟨e, he, hpairs⟩ := Running.exists_of_toOption h
  rw [he]
  cases e with
  | object parts => rw [eq_map_naming hpairs]
  | _ => cases hpairs

/-- Two short constants fit into an evaluation, whichever comes first. -/
theorem nesting_bounded_chained :
    (∃ style, read "{p: a, q: b}" (chained 3) folded = .ok (.static style) ∧
      style.nesting = 8 ∧ style.nesting ≤ maxNesting + (maxNesting - 2) * 2 ∧
      style.nesting ≤ maxNesting) ∧
      read "{q: b, p: a}" (chained 3) folded ≠ .error (.malformed "{q: b, p: a}" .tooDeep) := by
  obtain ⟨hbound, hfitted⟩ := nesting_bounded "{p: a, q: b}" (chained 3) folded
  have htext : expressionOf "{p: a, q: b}" = .ok (.object ([("p", "a"), ("q", "b")].map naming)) :=
    expressionOf_eq_of_namings (by decide +kernel)
  have htext' : expressionOf "{q: b, p: a}" = .ok (.object ([("q", "b"), ("p", "a")].map naming)) :=
    expressionOf_eq_of_namings (by decide +kernel)
  obtain ⟨hstyle, horder⟩ := hfitted _ htext (by decide +kernel)
  obtain ⟨style, hread, hnesting⟩ :
      ∃ style, read "{p: a, q: b}" (chained 3) folded = .ok (.static style) ∧ style.nesting = 8 :=
    exists_static_of_nesting (by decide +kernel)
  refine ⟨⟨style, hread, hnesting, hbound style hread, hstyle style hread⟩, ?_⟩
  exact horder _ _ _ rfl htext' ((List.Perm.swap _ _ _).map naming)

/-- Of two long constants, the second fits into an evaluation only if the value of the first has
been kept, and then the style has more levels than an evaluation. -/
theorem nesting_by_order :
    (∃ style, read "{p: a, q: b}" (chained 65) folded = .ok (.static style) ∧
      maxNesting < style.nesting) ∧
      read "{q: b, p: a}" (chained 65) folded =
        .error (.malformed "{q: b, p: a}" .tooDeep) := by
  constructor
  · obtain ⟨style, hread, hnesting⟩ : ∃ style,
        read "{p: a, q: b}" (chained 65) folded = .ok (.static style) ∧ style.nesting = 132 :=
      exists_static_of_nesting (by decide +kernel)
    exact ⟨style, hread, by rw [hnesting]; decide⟩
  · have hfault : (read "{q: b, p: a}" (chained 65) folded).map nesting? =
        .error (.malformed "{q: b, p: a}" .tooDeep) := by decide +kernel
    cases hread : read "{q: b, p: a}" (chained 65) folded with
    | error fault =>
        rw [hread] at hfault
        cases hfault
        rfl
    | ok d =>
        rw [hread] at hfault
        cases hfault

end StaticStyle.Declaration
