import StaticStyle.Proofs.Expression.Independence
import StaticStyle.Proofs.Expression.Meaning
import StaticStyle.Proofs.Script.Rules

/-!
# Styles of arguments

The style that the text of an argument has under a theme (`Declaration.styleOf`), by way of a
declaration that may be a function of the theme.  If there is one, it is the one that the text
means (`Declaration.means_of_styleOf`).  If the text comes to a name without a constant, there is
none, and otherwise the name has no part in it (`Declaration.styleOf_eq_or`).
-/

namespace StaticStyle.Declaration

open StaticStyle.Syntax (Tree)
open StaticStyle.Expression (Limits Level DifferAt)

variable {text name : String} {constants constants' : Constants} {limits : Limits}
  {theme : Option Json} {style : Style}

/-- The style that a text makes under a theme. -/
def styleOf (text : String) (constants : Constants) (limits : Limits) (theme : Option Json) :
    Except StyleError Style := do
  let d ← read text constants limits
  d.styleFor theme

/-- The style that a text means: the one that its value is, or the value of what it returns for
the theme if it is a function. -/
inductive Means (text : String) (constants : Constants) (theme : Option Json) (style : Style) :
    Prop where
  | static {tree e value} :
      parse text = .ok tree → Expression.ofTree tree = .ok e →
      Expression.Means [] constants e value → value.toStyle = .ok style →
      Means text constants theme style
  | themed {async expression span parts parameter body json locals value} :
      parse text = .ok (.node (.arrow async expression) span parts) →
      ThemeFunction.partsOf async parts = .ok (parameter, body) → theme = some json →
      parameter.bind (Value.ofJson json) = .ok locals →
      Expression.Means locals constants body value → value.toStyle = .ok style →
      Means text constants theme style

/-- A theme function gives the style that its body means. -/
theorem means_of_apply {f : ThemeFunction} {json : Json} (h : f.apply json = .ok style) :
    ∃ locals value, f.parameter.bind (Value.ofJson json) = .ok locals ∧
      Expression.Means locals f.constants f.body value ∧ value.toStyle = .ok style := by
  unfold ThemeFunction.apply at h
  rw [mapError_eq_ok_iff] at h
  obtain ⟨locals, hlocals, h⟩ := bind_eq_ok_iff.mp h
  obtain ⟨value, hvalue, hstyle⟩ := bind_eq_ok_iff.mp h
  exact ⟨locals, value, hlocals, Expression.means_of_evaluate hvalue, hstyle⟩

/-- The style of a text is the one that it means with the constants that it can see. -/
theorem means_of_styleOf (h : styleOf text constants limits theme = .ok style) :
    Means text (limits.level.restrict constants) theme style := by
  obtain ⟨d, hread, hstyle⟩ := bind_eq_ok_iff.mp h
  unfold read at hread
  rw [mapError_eq_ok_iff] at hread
  obtain ⟨tree, htree, hread⟩ := bind_eq_ok_iff.mp hread
  unfold ofTree at hread
  dsimp only at hread
  split at hread
  · obtain ⟨⟨parameter, body⟩, hparts, hd⟩ := bind_eq_ok_iff.mp hread
    cases hd
    cases theme with
    | none => cases hstyle
    | some json =>
        obtain ⟨locals, value, hlocals, hvalue, hstyle⟩ := means_of_apply hstyle
        exact .themed htree hparts rfl hlocals hvalue hstyle
  · obtain ⟨e, he, hread⟩ := bind_eq_ok_iff.mp hread
    obtain ⟨value, hvalue, hread⟩ := bind_eq_ok_iff.mp hread
    obtain ⟨style', hstyle', hd⟩ := bind_eq_ok_iff.mp hread
    cases hd
    cases hstyle
    exact .static htree he (Expression.means_of_evaluate hvalue) hstyle'

/-- The tables that an evaluation at a level can see differ at the same name only. -/
theorem differAt_restrict (level : Level) (h : DifferAt name constants constants') :
    DifferAt name (level.restrict constants) (level.restrict constants') := by
  cases level with
  | literal =>
      intro other hother
      rfl
  | moduleConstants => exact h

theorem get?_restrict_eq_none (level : Level) (h : constants.get? name = none) :
    (level.restrict constants).get? name = none := by
  cases level with
  | literal => rfl
  | moduleConstants => exact h

theorem ofTree_arrow (text : String) (async expression : Bool) (span : Text.Span)
    (parts : List Tree) (constants : Constants) (limits : Limits) :
    ofTree text (.node (.arrow async expression) span parts) constants limits =
      (ThemeFunction.partsOf async parts).map fun pair =>
        .themed ⟨text, pair.1, pair.2, limits.level.restrict constants, limits⟩ := by
  change (ThemeFunction.partsOf async parts >>= _) = _
  cases ThemeFunction.partsOf async parts with
  | error fault => rfl
  | ok pair => rfl

theorem ofTree_of_ne {tree : Tree} (text : String) (constants : Constants) (limits : Limits)
    (h : ∀ async expression span parts, tree ≠ .node (.arrow async expression) span parts) :
    ofTree text tree constants limits = (do
      let e ← Expression.ofTree tree
      let value ← Expression.evaluate e [] (limits.level.restrict constants) limits
      return .static (← value.toStyle)) := by
  unfold ofTree
  dsimp only
  split
  · exact absurd rfl (h _ _ _ _)
  · rfl

/-- A theme function that comes to a name without a constant has no style for want of it, and any
other has the style that it has with any constant of that name. -/
theorem apply_eq_or (hnone : constants.get? name = none)
    (hdiffer : DifferAt name constants constants') (text : String) (parameter : Parameter)
    (body : Expression) (limits : Limits) (json : Json) :
    ThemeFunction.apply ⟨text, parameter, body, constants, limits⟩ json =
        .error (.malformed text (.unresolved name)) ∨
      ThemeFunction.apply ⟨text, parameter, body, constants', limits⟩ json =
        ThemeFunction.apply ⟨text, parameter, body, constants, limits⟩ json := by
  unfold ThemeFunction.apply
  cases hlocals : parameter.bind (Value.ofJson json) with
  | error fault => exact Or.inr rfl
  | ok locals =>
      change (Expression.evaluate body locals constants limits >>= _).mapError _ = _ ∨
        (Expression.evaluate body locals constants' limits >>= _).mapError _ =
          (Expression.evaluate body locals constants limits >>= _).mapError _
      rcases Expression.evaluate_eq_or hnone hdiffer body locals limits with hfault | hsame
      · rw [hfault]
        exact Or.inl rfl
      · rw [hsame]
        exact Or.inr rfl

/-- A text that comes to a name without a constant has no style for want of it, and any other
has the style that it has with any constant of that name. -/
theorem styleOf_eq_or (hnone : constants.get? name = none)
    (hdiffer : DifferAt name constants constants') (text : String) (limits : Limits)
    (theme : Option Json) :
    styleOf text constants limits theme = .error (.malformed text (.unresolved name)) ∨
      styleOf text constants' limits theme = styleOf text constants limits theme := by
  have hvisible := get?_restrict_eq_none limits.level hnone
  have hdiffer' := differAt_restrict limits.level hdiffer
  unfold styleOf read
  cases htree : parse text with
  | error fault => exact Or.inr rfl
  | ok tree =>
      change ((ofTree text tree constants limits).mapError _ >>= _) = _ ∨
        ((ofTree text tree constants' limits).mapError _ >>= _) =
          ((ofTree text tree constants limits).mapError _ >>= _)
      by_cases harrow : ∃ async expression span parts,
          tree = .node (.arrow async expression) span parts
      · obtain ⟨async, expression, span, parts, rfl⟩ := harrow
        rw [ofTree_arrow, ofTree_arrow]
        cases ThemeFunction.partsOf async parts with
        | error fault => exact Or.inr rfl
        | ok pair =>
            cases theme with
            | none => exact Or.inr rfl
            | some json => exact apply_eq_or hvisible hdiffer' text pair.1 pair.2 limits json
      · have hother : ∀ async expression span parts,
            tree ≠ .node (.arrow async expression) span parts :=
          fun async expression span parts h => harrow ⟨async, expression, span, parts, h⟩
        rw [ofTree_of_ne text constants limits hother, ofTree_of_ne text constants' limits hother]
        cases Expression.ofTree tree with
        | error fault => exact Or.inr rfl
        | ok e =>
            change ((Expression.evaluate e [] (limits.level.restrict constants) limits >>= _).mapError
              _ >>= _) = _ ∨ ((Expression.evaluate e [] (limits.level.restrict constants') limits
              >>= _).mapError _ >>= _) = ((Expression.evaluate e []
              (limits.level.restrict constants) limits >>= _).mapError _ >>= _)
            rcases Expression.evaluate_eq_or hvisible hdiffer' e [] limits with hfault | hsame
            · rw [hfault]
              exact Or.inl rfl
            · rw [hsame]
              exact Or.inr rfl

end StaticStyle.Declaration
