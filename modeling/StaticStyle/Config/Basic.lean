import StaticStyle.Registry
import StaticStyle.Script.Call
import StaticStyle.Text.Search

/-!
# Configurations

What can be set about a build, and what holds if nothing is set.
-/

namespace StaticStyle

open StaticStyle.Expression (Limits)

/-- What happens to a call whose style is not registered. -/
inductive UnknownPolicy where
  /-- The script is refused. -/
  | abort
  /-- The call stays as it is. -/
  | leaveUnresolved
  /-- The call is replaced all the same. -/
  | substitute
deriving DecidableEq, Repr, Inhabited

/-- The settings of a build. -/
structure Config where
  /-- The folder that scripts are looked for in. -/
  root : String
  /-- The theme that theme functions are given. -/
  theme : Option Json
  /-- What class names start with. -/
  classPrefix : String
  /-- The text of the callee of a style call. -/
  callee : String
  /-- The name of the at-rule that stands for the styles. -/
  directive : String
  /-- A part of the name of the module that the callee is imported from. -/
  importSource : String
  /-- The limits of evaluation. -/
  limits : Limits
  /-- What happens to calls whose style is not registered. -/
  unknown : UnknownPolicy
  /-- Parts of the names of scripts that are left alone. -/
  exclude : List String
  /-- Whether stylesheets are minified. -/
  minify : Bool
deriving Repr, Inhabited

namespace Config

/-- The settings that hold unless others are given. -/
def default : Config where
  root := "."
  theme := none
  classPrefix := "flow"
  callee := "css"
  directive := "flow-css"
  importSource := "flow-css/core/css"
  limits := Limits.default
  unknown := .abort
  exclude := ["node_modules", "/dist/"]
  minify := false

/-- The style function of the build. -/
def function (c : Config) : StyleFunction := ⟨c.callee, c.importSource⟩

/-- How the build names classes. -/
def naming (c : Config) : Naming := ⟨c.classPrefix, c.theme⟩

/-- Whether a script is left alone. -/
def excludes (c : Config) (id : String) : Bool :=
  c.exclude.any fun part => Text.occursIn part.toList id.toList

end Config

end StaticStyle
