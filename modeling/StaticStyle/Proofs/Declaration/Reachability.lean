import StaticStyle.Declaration.Basic
import StaticStyle.Proofs.Declaration
import StaticStyle.Proofs.Expression.Capture
import StaticStyle.Proofs.Running

/-!
# The constants that matter

An argument reaches the names in its expression, and those in the initial values of the constants
that it reaches (`Declaration.Reaches`).  Two tables of constants that agree on these make the
same declaration of it (`Declaration.read_congr`): no other constant has a part in the style, in
the fault, or in what a function of the theme makes of any theme.

The evaluations among the two tables run side by side.  They share the names that are being worked
out, the values that are kept and the steps that are left, so it is enough that each name that
comes up is looked up alike, and the names that come up are reached
(`Expression.alike_of_agree`).
-/

namespace StaticStyle

/-! ## Expressions -/

namespace Expression

variable {hidden : List String} {constants constants' : Constants} {e : Expression}

/-- Tables of constants agree on the names that an expression may come to, where some are
hidden. -/
def Agree (hidden : List String) (constants constants' : Constants) (e : Expression) : Prop :=
  ∀ name, Uses hidden constants e name → constants'.get? name = constants.get? name

/-- Names that are hidden hide uses. -/
theorem Uses.of_hidden {name : String} (h : Uses hidden constants e name) :
    Uses [] constants e name := by
  induction h with
  | directly hname _ => exact .directly hname List.not_mem_nil
  | through _ hget hother ih => exact ih.through hget hother

theorem Agree.hide (h : Agree [] constants constants' e) (hidden : List String) :
    Agree hidden constants constants' e :=
  fun name huses => h name huses.of_hidden

/-- Where two tables agree on the names that come up, an evaluation does the same among either. -/
theorem alike_of_agree {locals : List (String × Value)}
    (hagree : Agree (locals.map Prod.fst) constants constants' e) (levels : Nat)
    {e' : Expression} (hnames : ∀ name ∈ e'.names, name ∉ locals.map Prod.fst →
      Uses (locals.map Prod.fst) constants e name) :
    Alike locals constants locals constants' (evaluateWithinBy lookUp levels e')
      (evaluateWithinBy lookUp levels e') := by
  induction levels generalizing e' with
  | zero =>
      exact (corresponds_alike locals constants locals constants').evaluateWithinBy_zero
        (fun _ => lookUp) alike_step e' e'
  | succ levels ih =>
      refine (corresponds_alike locals constants locals constants').evaluateWithinBy_among
        (fun _ => lookUp) (fun _ => levels) alike_step (fun _ he => ih he) ?_ hnames
      intro name huses
      refine alike_lookUp rfl ?_
      intro hnone
      have hname := huses (lookup_eq_none_iff.mp hnone)
      refine ⟨rfl, hagree name hname, ?_⟩
      intro initial hget
      exact ih fun other hother _ => hname.through hget hother

/-- Constants that an expression does not come to make no difference to it. -/
theorem evaluate_congr (locals : List (String × Value))
    (hagree : Agree (locals.map Prod.fst) constants constants' e) (limits : Limits) :
    evaluate e locals constants' limits = evaluate e locals constants limits := by
  have halike := alike_of_agree hagree maxNesting fun name hname hfree => .directly hname hfree
  rw [evaluate_eq, evaluate_eq, ← evaluateWithinBy_lookUp, ← halike]

end Expression

/-! ## Declarations -/

namespace Declaration

open StaticStyle.Syntax (Tree)
open StaticStyle.Expression (Limits Level Agree)

variable {text name : String} {constants constants' : Constants} {limits : Limits}

/-- The expression that a text is read as: what it returns if it is a function of the theme, and
otherwise the whole of it. -/
def bodyOf (text : String) : Except Malformation Expression := do
  match ← parse text with
  | .node (.arrow async _) _ parts => return (← ThemeFunction.partsOf async parts).2
  | tree => Expression.ofTree tree

/-- A text reaches the names in its expression, and those in the initial values of constants that
it reaches. -/
def Reaches (text : String) (constants : Constants) (name : String) : Prop :=
  ∃ e, bodyOf text = .ok e ∧ Expression.Uses [] constants e name

/-- Two texts or tables come to the same: one fault, one style, or functions that make the same of
every theme. -/
inductive Same : Except StyleError Declaration → Except StyleError Declaration → Prop where
  | fault (fault) : Same (.error fault) (.error fault)
  | static (style) : Same (.ok (.static style)) (.ok (.static style))
  | themed {f f' : ThemeFunction} : (∀ theme, f.apply theme = f'.apply theme) →
      Same (.ok (.themed f)) (.ok (.themed f'))

theorem agree_restrict {e : Expression} (level : Level) (h : Agree [] constants constants' e) :
    Agree [] (level.restrict constants) (level.restrict constants') e := by
  cases level with
  | literal => exact fun _ _ => rfl
  | moduleConstants => exact h

theorem bodyOf_arrow {async expression : Bool} {span : Text.Span} {parts : List Tree}
    (h : parse text = .ok (.node (.arrow async expression) span parts)) :
    bodyOf text = (ThemeFunction.partsOf async parts).map Prod.snd := by
  unfold bodyOf
  rw [h]
  change (ThemeFunction.partsOf async parts >>= _) = _
  cases ThemeFunction.partsOf async parts with
  | error fault => rfl
  | ok pair => rfl

theorem bodyOf_of_ne {tree : Tree} (h : parse text = .ok tree)
    (hother : ∀ async expression span parts, tree ≠ .node (.arrow async expression) span parts) :
    bodyOf text = Expression.ofTree tree := by
  unfold bodyOf
  rw [h]
  change (match tree with
    | .node (.arrow async _) _ parts => _
    | tree => Expression.ofTree tree) = _
  split
  · exact absurd rfl (hother _ _ _ _)
  · rfl

/-- A theme function makes the same of every theme among tables that agree on the names in its
body. -/
theorem apply_congr {body : Expression} (hagree : Agree [] constants constants' body)
    (text : String) (parameter : Parameter) (limits : Limits) (theme : Json) :
    ThemeFunction.apply ⟨text, parameter, body, constants, limits⟩ theme =
      ThemeFunction.apply ⟨text, parameter, body, constants', limits⟩ theme := by
  unfold ThemeFunction.apply
  cases parameter.bind (Value.ofJson theme) with
  | error fault => rfl
  | ok locals =>
      change (Expression.evaluate body locals constants limits >>= _).mapError _ =
        (Expression.evaluate body locals constants' limits >>= _).mapError _
      rw [Expression.evaluate_congr locals (hagree.hide _) limits]

/-- An expression has the same style among tables that agree on the names in it. -/
theorem same_evaluate {e : Expression} (hagree : Agree [] constants constants' e)
    (text : String) (limits : Limits) :
    Same
      ((Expression.evaluate e [] constants limits >>= fun value => value.toStyle.map .static).mapError
        (.malformed text))
      ((Expression.evaluate e [] constants' limits >>= fun value =>
        value.toStyle.map .static).mapError (.malformed text)) := by
  rw [Expression.evaluate_congr [] hagree limits]
  cases Expression.evaluate e [] constants limits with
  | error fault => exact .fault _
  | ok value =>
      change Same ((value.toStyle.map .static).mapError _) ((value.toStyle.map .static).mapError _)
      cases value.toStyle with
      | error fault => exact .fault _
      | ok style => exact .static style

/-- Constants that a text does not reach have no part in its declaration. -/
theorem read_congr (text : String) (constants constants' : Constants) (limits : Limits)
    (hagree : ∀ name, Reaches text constants name → constants'.get? name = constants.get? name) :
    Same (read text constants limits) (read text constants' limits) := by
  unfold read
  cases htree : parse text with
  | error fault => exact .fault _
  | ok tree =>
      change Same ((ofTree text tree constants limits).mapError _)
        ((ofTree text tree constants' limits).mapError _)
      by_cases harrow : ∃ async expression span parts,
          tree = .node (.arrow async expression) span parts
      · obtain ⟨async, expression, span, parts, rfl⟩ := harrow
        have hbody := bodyOf_arrow htree
        rw [ofTree_arrow, ofTree_arrow]
        cases hparts : ThemeFunction.partsOf async parts with
        | error fault => exact .fault _
        | ok pair =>
            rw [hparts] at hbody
            have hagree' := agree_restrict limits.level fun name huses =>
              hagree name ⟨pair.2, hbody, huses⟩
            exact .themed fun theme => apply_congr hagree' text pair.1 limits theme
      · have hother : ∀ async expression span parts,
            tree ≠ .node (.arrow async expression) span parts :=
          fun async expression span parts h => harrow ⟨async, expression, span, parts, h⟩
        have hbody := bodyOf_of_ne htree hother
        rw [ofTree_of_ne text constants limits hother, ofTree_of_ne text constants' limits hother]
        cases he : Expression.ofTree tree with
        | error fault => exact .fault _
        | ok e =>
            rw [he] at hbody
            exact same_evaluate (agree_restrict limits.level fun name huses =>
              hagree name ⟨e, hbody, huses⟩) text limits

/-- A function of the theme that reaches a constant by way of another, beside constants that it
does not reach, two of which refer to each other. -/
theorem read_congr_unreached :
    let text := "(t) => (\x7bmargin: t + a\x7d)"
    let limits : Limits := { Limits.default with level := .moduleConstants }
    let constants : Constants := [("a", .identifier "b"), ("b", .string "px"), ("c", .identifier "a")]
    let constants' : Constants :=
      [("c", .identifier "d"), ("d", .identifier "c"), ("b", .string "px"), ("a", .identifier "b")]
    (∀ name, Reaches text constants name → constants'.get? name = constants.get? name) ∧
      Same (read text constants limits) (read text constants' limits) ∧
      (styleOf text constants' limits (some (.string "7"))).toOption.map Style.canonicalText =
        some "margin:7px;" := by
  intro text limits constants constants'
  obtain ⟨e, hbody, hnames⟩ : ∃ e, bodyOf text = .ok e ∧ e.names = ["t", "a"] :=
    Running.exists_of_toOption (by decide +kernel)
  have hagree : ∀ name, Reaches text constants name →
      constants'.get? name = constants.get? name := by
    rintro name ⟨e', hbody', huses⟩
    obtain rfl := Except.ok.inj (hbody.symm.trans hbody')
    have hreached : name ∈ ["t", "a", "b"] := by
      induction huses with
      | directly hname _ =>
          rw [hnames] at hname
          exact List.subset_append_left ["t", "a"] ["b"] hname
      | through _ hget hother ih =>
          have hclosed : ∀ reached ∈ ["t", "a", "b"], ∀ constant ∈ constants,
              constant.1 = reached → ∀ other ∈ constant.2.names, other ∈ ["t", "a", "b"] := by
            decide
          exact hclosed _ ih _ (Table.mem_of_get? hget) rfl _ hother
    simp only [List.mem_cons, List.not_mem_nil, or_false] at hreached
    rcases hreached with rfl | rfl | rfl
    · rfl
    · rfl
    · rfl
  exact ⟨hagree, read_congr text constants constants' limits hagree, by decide +kernel⟩

end Declaration

end StaticStyle
