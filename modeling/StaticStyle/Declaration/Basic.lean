import StaticStyle.Error
import StaticStyle.Expression.Evaluation
import StaticStyle.Expression.Reading
import StaticStyle.Syntax.Module

/-!
# Declarations

The argument of a style call.  `Declaration.read` takes the text of one
expression.  An arrow function with one parameter is a theme function and is
kept, with what it may refer to, until `Declaration.styleFor` is given a theme;
any other expression is evaluated at once and has to be an object.

The text is read between parentheses, followed by a line break, so that braces
open an object and a comment at the end of a line ends there.
-/

namespace StaticStyle

open StaticStyle.Syntax (Tree Kind)
open StaticStyle.Expression (Limits)

/-! ## Theme functions -/

/-- The parameter of a theme function. -/
inductive Parameter where
  /-- The theme under a name. -/
  | whole (name : String)
  /-- Some properties of the theme, each under a name: pairs of key and name. -/
  | fields (pairs : List (String × String))
deriving DecidableEq, Repr

/-- A style that depends on the theme. -/
structure ThemeFunction where
  /-- The text of the function. -/
  text : String
  /-- Its parameter. -/
  parameter : Parameter
  /-- The expression it returns. -/
  body : Expression
  /-- The constants it may refer to. -/
  constants : Constants
  /-- The limits of its evaluation. -/
  limits : Limits
deriving Repr

namespace Parameter

/-- A property of an object pattern, as its key and its local name. -/
def fieldOf (property : Tree) : Except Malformation (String × String) :=
  match property with
  | .node (.patternProperty true _) _ _ => .error .themeComputedKey
  | .node (.patternProperty false _) _ [key, value] =>
      match Expression.plainKey? key with
      | none => .error .themeKey
      | some key =>
          match value.kind with
          | .binding name => .ok (key, name)
          | _ => .error .themeNestedPattern
  | _ => .error .themeNestedPattern

/-- A pattern as the parameter of a theme function. -/
def ofPattern (pattern : Tree) : Except Malformation Parameter :=
  match pattern with
  | .node (.typed _ _) _ (.node (.binding name) _ _ :: _) => .ok (.whole name)
  | .node (.typed _ _) _ (.node .objectPattern _ properties :: _) => ofProperties properties
  | .node (.binding name) _ _ => .ok (.whole name)
  | .node .objectPattern _ properties => ofProperties properties
  | _ => .error .themePattern
where
  /-- The properties of an object pattern as the parameter of a theme function. -/
  ofProperties (properties : List Tree) : Except Malformation Parameter :=
    if properties.any (·.kind == .rest) then .error .themeRest
    else (properties.mapM fieldOf).map .fields

/-- The one parameter in a list of parameters. -/
def ofParameters (parameters : Tree) : Except Malformation Parameter :=
  match parameters.children with
  | [.node (.parameter _) _ [_, pattern]] => ofPattern pattern
  | _ => .error .themeArity

/-- The local names that the parameter gives values, for a theme. -/
def bind (parameter : Parameter) (theme : Value) : Except Malformation (List (String × Value)) :=
  match parameter with
  | .whole name => .ok [(name, theme)]
  | .fields pairs =>
      (pairs.mapM fun pair => (theme.property pair.1).map fun value => (pair.2, value)).map
        List.reverse

end Parameter

namespace ThemeFunction

/-- Whether a node is a directive in front of the statements of a body. -/
def isDirective (t : Tree) : Bool :=
  match t.kind with
  | .directive _ => true
  | _ => false

/-- The expression that a body returns. -/
def bodyOf (body : Tree) : Except Malformation Expression :=
  match body with
  | .node .body _ statements =>
      match statements.filter (!isDirective ·) with
      | [.node .returnStatement _ [e]] =>
          if e.isAbsent then .error .themeReturnsNothing else Expression.ofTree e
      | _ => .error .themeBody
  | e => Expression.ofTree e

/-- The parameter and the body of an arrow function, given its parts. -/
def partsOf (async : Bool) (parts : List Tree) : Except Malformation (Parameter × Expression) := do
  if async then throw .asyncTheme
  match parts with
  | [_, parameters, _, body] =>
      let parameter ← Parameter.ofParameters parameters
      return (parameter, ← bodyOf body)
  | _ => throw .themeArity

/-- The style for a theme. -/
def apply (f : ThemeFunction) (theme : Json) : Except StyleError Style :=
  (show Except Malformation Style from do
    let locals ← f.parameter.bind (Value.ofJson theme)
    let value ← Expression.evaluate f.body locals f.constants f.limits
    value.toStyle).mapError (.malformed f.text)

end ThemeFunction

/-! ## Declarations -/

/-- The argument of a style call. -/
inductive Declaration where
  /-- A style that is known. -/
  | static (style : Style)
  /-- A style that depends on the theme. -/
  | themed (f : ThemeFunction)
deriving Repr

namespace Declaration

/-- Whether the declaration depends on the theme. -/
def isThemed : Declaration → Bool
  | .static _ => false
  | .themed _ => true

/-- The text of an argument as it is parsed. -/
def wrap (text : String) : List Char := '(' :: text.toList ++ ['\n', ')']

/-- The tree of a text that is one expression, parentheses and casts around it taken
off. -/
def parse (text : String) : Except Malformation Tree :=
  match Syntax.parseModule ⟨true, true, false⟩ (wrap text) with
  | none => .error .unparsable
  | some program =>
      match program.children.filter (!ThemeFunction.isDirective ·) with
      | [.node .expressionStatement _ [e]] => .ok e.unwrap
      | _ => .error .notOneExpression

/-- The declaration that an expression makes, `text` being its text. -/
def ofTree (text : String) (e : Tree) (constants : Constants) (limits : Limits) :
    Except Malformation Declaration := do
  let visible := limits.level.restrict constants
  match e with
  | .node (.arrow async _) _ parts =>
      let (parameter, body) ← ThemeFunction.partsOf async parts
      return .themed ⟨text, parameter, body, visible, limits⟩
  | e =>
      let value ← Expression.evaluate (← Expression.ofTree e) [] visible limits
      return .static (← value.toStyle)

/-- Reads the text of an argument that may refer to some constants. -/
def read (text : String) (constants : Constants) (limits : Limits) : Except StyleError Declaration :=
  (show Except Malformation Declaration from do
    ofTree text (← parse text) constants limits).mapError (.malformed text)

/-- The style of a declaration under a theme. -/
def styleFor (d : Declaration) (theme : Option Json) : Except StyleError Style :=
  match d, theme with
  | .static style, _ => .ok style
  | .themed _, none => .error .missingTheme
  | .themed f, some theme => f.apply theme

/-- The canonical text of the style of a declaration. -/
def canonicalKey (d : Declaration) (theme : Option Json) : Except StyleError String :=
  (d.styleFor theme).map Style.canonicalText

end Declaration

end StaticStyle
