import StaticStyle.Proofs.Expression.Capture
import StaticStyle.Proofs.Script.Rules

/-!
# Theme functions

A theme function is applied to a theme among the constants of its module.  Its parameter gives
the theme local names, which belong to the body alone.

The constants are worked out while the body is, and a local name that stands in an initial value
takes the place of the constant there.  Where no name is captured so
(`ThemeFunction.Uncaptured`), each constant has the value that it has in the module, and a
local name may be replaced by a new one (`ThemeFunction.apply_uncaptured`).
-/

namespace StaticStyle

open StaticStyle.Expression (replace renameLocals)

/-! ## Parameters -/

namespace Parameter

/-- The local names, the innermost first. -/
def names : Parameter → List String
  | .whole name => [name]
  | .fields pairs => (pairs.map Prod.snd).reverse

/-- A parameter with other local names. -/
def rename (ρ : String → String) : Parameter → Parameter
  | .whole name => .whole (ρ name)
  | .fields pairs => .fields (pairs.map fun pair => (pair.1, ρ pair.2))

variable {parameter : Parameter} {theme : Value} {locals : List (String × Value)}

/-- A property of the theme under its local name. -/
def fieldFor (theme : Value) (pair : String × String) : Except Malformation (String × Value) :=
  (theme.property pair.1).map fun value => (pair.2, value)

theorem bind_fields (pairs : List (String × String)) (theme : Value) :
    (fields pairs).bind theme = (pairs.mapM (fieldFor theme)).map List.reverse := rfl

theorem map_fst_of_fields {pairs : List (String × String)}
    (h : pairs.mapM (fieldFor theme) = .ok locals) :
    locals.map Prod.fst = pairs.map Prod.snd := by
  induction pairs generalizing locals with
  | nil =>
      cases h
      rfl
  | cons pair rest ih =>
      rw [List.mapM_cons] at h
      obtain ⟨first, hfirst, h⟩ := bind_eq_ok_iff.mp h
      obtain ⟨others, hothers, h⟩ := bind_eq_ok_iff.mp h
      cases h
      rw [List.map_cons, List.map_cons, ih hothers]
      unfold fieldFor at hfirst
      rcases hvalue : theme.property pair.1 with fault | value
      · rw [hvalue] at hfirst
        cases hfirst
      · rw [hvalue] at hfirst
        cases hfirst
        rfl

/-- A theme gives values to the names of the parameter. -/
theorem map_fst_of_bind (h : parameter.bind theme = .ok locals) :
    locals.map Prod.fst = parameter.names := by
  cases parameter with
  | whole name =>
      cases h
      rfl
  | fields pairs =>
      rw [bind_fields] at h
      rcases hbound : pairs.mapM (fieldFor theme) with fault | bound
      · rw [hbound] at h
        cases h
      · rw [hbound] at h
        cases h
        rw [List.map_reverse, map_fst_of_fields hbound]
        rfl

theorem fields_rename (ρ : String → String) (theme : Value) (pairs : List (String × String)) :
    (pairs.map fun pair => (pair.1, ρ pair.2)).mapM (fieldFor theme) =
      (pairs.mapM (fieldFor theme)).map (renameLocals ρ) := by
  induction pairs with
  | nil => rfl
  | cons pair rest ih =>
      rw [List.map_cons, List.mapM_cons, List.mapM_cons, ih]
      unfold fieldFor
      rcases theme.property pair.1 with fault | value
      · rfl
      · rcases rest.mapM _ with fault | others
        · rfl
        · rfl

/-- A theme gives the same values to other names. -/
theorem bind_rename (ρ : String → String) (parameter : Parameter) (theme : Value) :
    (parameter.rename ρ).bind theme = (parameter.bind theme).map (renameLocals ρ) := by
  cases parameter with
  | whole name => rfl
  | fields pairs =>
      rw [rename, bind_fields, bind_fields, fields_rename]
      rcases pairs.mapM (fieldFor theme) with fault | bound
      · rfl
      · change Except.ok (renameLocals ρ bound).reverse = Except.ok (renameLocals ρ bound.reverse)
        rw [renameLocals, renameLocals, List.map_reverse]

end Parameter

/-! ## Functions -/

namespace ThemeFunction

/-- The style for a theme, the constants being worked out with no local name in sight. -/
def applyLexically (f : ThemeFunction) (theme : Json) : Except StyleError Style :=
  (show Except Malformation Style from do
    let locals ← f.parameter.bind (Value.ofJson theme)
    let value ← Expression.evaluateLexically f.body locals f.constants f.limits
    value.toStyle).mapError (.malformed f.text)

/-- No local name stands in the initial value of a constant that the body uses. -/
def Uncaptured (f : ThemeFunction) : Prop :=
  Expression.Uncaptured f.parameter.names f.constants f.body

/-- The function with a new name in the place of an old local one. -/
def rename (old new : String) (f : ThemeFunction) : ThemeFunction :=
  { f with
    parameter := f.parameter.rename (replace old new)
    body := f.body.rename (replace old new) }

variable {f : ThemeFunction} {old new : String}

theorem apply_eq_lexically (huncaptured : f.Uncaptured) (theme : Json) :
    f.apply theme = f.applyLexically theme := by
  unfold apply applyLexically
  cases hlocals : f.parameter.bind (Value.ofJson theme) with
  | error fault => rfl
  | ok locals =>
      change (Expression.evaluate f.body locals f.constants f.limits >>= _).mapError _ =
        (Expression.evaluateLexically f.body locals f.constants f.limits >>= _).mapError _
      rw [Expression.evaluate_eq_lexically]
      rw [Parameter.map_fst_of_bind hlocals]
      exact huncaptured

theorem apply_rename (huncaptured : f.Uncaptured) (hold : old ∈ f.parameter.names)
    (hnew : new ∉ f.parameter.names) (hbody : new ∉ f.body.names)
    (hconstants : ∀ name initial, f.constants.get? name = some initial → new ∉ initial.names)
    (theme : Json) : (f.rename old new).apply theme = f.apply theme := by
  unfold apply rename
  dsimp only
  rw [Parameter.bind_rename]
  cases hlocals : f.parameter.bind (Value.ofJson theme) with
  | error fault => rfl
  | ok locals =>
      have hnames := Parameter.map_fst_of_bind hlocals
      change (Expression.evaluate _ (renameLocals _ locals) f.constants f.limits >>= _).mapError _ =
        (Expression.evaluate f.body locals f.constants f.limits >>= _).mapError _
      rw [Expression.evaluate_rename]
      · rw [hnames]
        exact huncaptured
      · rw [hnames]
        exact hold
      · rw [hnames]
        exact hnew
      · exact hbody
      · exact hconstants

/-- If no name is captured, the constants have the values that they have with no local name in
sight, and a new name in the place of an old local one makes no difference. -/
theorem apply_uncaptured (huncaptured : f.Uncaptured) (theme : Json) :
    f.apply theme = f.applyLexically theme ∧
      ∀ old new, old ∈ f.parameter.names → new ∉ f.parameter.names → new ∉ f.body.names →
        (∀ name initial, f.constants.get? name = some initial → new ∉ initial.names) →
          (f.rename old new).apply theme = f.apply theme :=
  ⟨apply_eq_lexically huncaptured theme, fun _ _ hold hnew hbody hconstants =>
    apply_rename huncaptured hold hnew hbody hconstants theme⟩

/-- A function with a constant that refers to another, and no local name in either. -/
def sized : ThemeFunction where
  text := "(\x7bwidth: w\x7d) => (\x7bmargin: w + unit\x7d)"
  parameter := .fields [("width", "w")]
  body := .object [.entry (.fixed "margin") (.binary .add (.identifier "w") (.identifier "unit"))]
  constants := [("unit", .identifier "base"), ("base", .string "px")]
  limits := { Expression.Limits.default with level := .moduleConstants }

theorem apply_uncaptured_sized :
    let theme := Json.object [("width", .string "7")]
    sized.Uncaptured ∧ sized.apply theme = sized.applyLexically theme ∧
      (sized.rename "w" "v").apply theme = sized.apply theme ∧
      (sized.apply theme).toOption.map Style.canonicalText = some "margin:7px;" := by
  intro theme
  have huncaptured : sized.Uncaptured := by
    intro name initial _ hget other hother
    have hnone : ∀ constant ∈ sized.constants, ∀ other ∈ constant.2.names,
        other ∉ sized.parameter.names := by decide
    exact hnone (name, initial) (Table.mem_of_get? hget) other hother
  obtain ⟨hlexically, hrename⟩ := apply_uncaptured huncaptured theme
  have hvalue : (sized.apply theme).toOption.map Style.canonicalText = some "margin:7px;" := by
    decide +kernel
  refine ⟨huncaptured, hlexically, hrename "w" "v" (by decide) (by decide) (by decide) ?_, hvalue⟩
  intro name initial hget
  have hnone : ∀ constant ∈ sized.constants, "v" ∉ constant.2.names := by decide
  exact hnone (name, initial) (Table.mem_of_get? hget)

/-- The parameter stands in the initial value of a constant, and takes the place of the constant of
its name. -/
def captured : ThemeFunction where
  text := "(a) => (\x7bmargin: b\x7d)"
  parameter := .whole "a"
  body := .object [.entry (.fixed "margin") (.identifier "b")]
  constants := [("a", .string "1px"), ("b", .identifier "a")]
  limits := { Expression.Limits.default with level := .moduleConstants }

example : (captured.apply (.string "7px")).toOption.map Style.canonicalText =
    some "margin:7px;" := by decide +kernel
example : (captured.applyLexically (.string "7px")).toOption.map Style.canonicalText =
    some "margin:1px;" := by decide +kernel

end ThemeFunction

end StaticStyle
