import StaticStyle.Declaration.Basic
import StaticStyle.Digest

/-!
# The registry

The styles of a build.  Every style is kept under the class name made from its
canonical text, so the same style has one entry whoever registers it.  The
registry also lists the files that styles came from, the stylesheets that the
styles go to, and whether it has been emptied since the last full scan.

`Naming.ruleOf` is where registering may fail; `Registry.add` cannot.
-/

namespace StaticStyle

/-! ## Names -/

/-- What decides about the class name of a declaration. -/
structure Naming where
  /-- What class names start with. -/
  classPrefix : String
  /-- The theme, if there is one. -/
  theme : Option Json
deriving Repr

/-- The rule of a style of the build. -/
structure ClassRule where
  /-- Its class name. -/
  className : String
  /-- The declaration that it comes from. -/
  declaration : Declaration
  /-- Its canonical text. -/
  key : String
deriving Repr

/-- The text of a rule. -/
def ClassRule.render (e : ClassRule) : String :=
  "." ++ e.className ++ " \x7b" ++ e.key ++ "\x7d"

namespace Naming

/-- The class name of a canonical text. -/
def classOf (naming : Naming) (key : String) : String := Digest.className naming.classPrefix key

/-- The rule of a declaration. -/
def ruleOf (naming : Naming) (d : Declaration) : Except StyleError ClassRule :=
  (d.canonicalKey naming.theme).map fun key => ⟨naming.classOf key, d, key⟩

end Naming

/-! ## The registry -/

/-- The styles of a build. -/
structure Registry where
  /-- The styles under their class names. -/
  styles : Table ClassRule
  /-- The files that styles came from. -/
  dependencies : Roll
  /-- The stylesheets that the styles go to. -/
  roots : Roll
  /-- Whether the styles were dropped and have not been collected again. -/
  stale : Bool
deriving Repr, Inhabited

namespace Registry

/-- The registry of a new build. -/
def empty : Registry := ⟨[], [], [], false⟩

/-- Whether there is a style of a class. -/
def hasClass (r : Registry) (className : String) : Bool := r.styles.has className

/-- The style of a class. -/
def style? (r : Registry) (className : String) : Option ClassRule := r.styles.get? className

/-- The class name of a declaration, if it is registered. -/
def lookUp (r : Registry) (naming : Naming) (d : Declaration) : Except StyleError (Option String) :=
  (naming.ruleOf d).map fun e => if r.hasClass e.className then some e.className else none

/-- Adds a style that comes from a file, in place of one of the same class. -/
def add (e : ClassRule) (file : String) (r : Registry) : Registry :=
  { r with styles := r.styles.put e.className e, dependencies := r.dependencies.enrol file }

/-- Adds styles that come from a file. -/
def addAll (es : List ClassRule) (file : String) (r : Registry) : Registry :=
  es.foldl (fun r e => r.add e file) r

/-- Adds a stylesheet that the styles go to. -/
def addRoot (file : String) (r : Registry) : Registry := { r with roots := r.roots.enrol file }

/-- Drops everything. -/
def clear (_ : Registry) : Registry := ⟨[], [], [], true⟩

/-- Notes that the styles have been collected. -/
def noteScan (r : Registry) : Registry := { r with stale := false }

/-- The rules of all styles, a line each. -/
def rules (r : Registry) : String := "\n".intercalate (r.styles.map fun (_, e) => e.render)

end Registry

end StaticStyle
