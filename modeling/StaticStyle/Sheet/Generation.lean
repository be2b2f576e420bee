import StaticStyle.Scan
import StaticStyle.Sheet.Directive
import StaticStyle.Sheet.Parser

/-!
# Generating stylesheets

A stylesheet is generated by putting the rules of the registry in the place of its
directives.  The stylesheet has to be valid before that, and so have the rules; if
the rules are not, nothing in the registry can be trusted and it is emptied.
-/

namespace StaticStyle

/-- A stylesheet with the rules of the build in it. -/
structure GeneratedSheet where
  /-- The text of the stylesheet. -/
  code : String
  /-- The files that the rules came from. -/
  dependencies : List String
  /-- Whether the stylesheet has a directive. -/
  isRoot : Bool
deriving DecidableEq, Repr

namespace Sheet

/-- Whether a stylesheet has a directive of the build. -/
def isRoot (c : Config) (code : String) : Bool := hasDirective c.directive.toList code.toList

/-- The text of a stylesheet with rules in the place of its directives. -/
def expanded (c : Config) (rules code : String) : String :=
  String.ofList (expand c.directive.toList rules.toList code.toList)

/-- Refuses a stylesheet that the parser finds fault with. -/
def check (p : SheetParser) (code file : String) : Registering Unit :=
  match p.fault? code with
  | some reason => throw (.invalidSheet file reason)
  | none => return

/-- The rules of the registry.  If the parser finds fault with them, the registry is
emptied. -/
def checkedRules (p : SheetParser) : Registering String := do
  let rules := (← get).rules
  match p.fault? rules with
  | some reason => do
      modify Registry.clear
      throw (.invalidRules reason rules)
  | none => return rules

/-- The minified text of a stylesheet if the build asks for it, the text itself
otherwise. -/
def finish (c : Config) (p : SheetParser) (text file : String) : Registering String :=
  if c.minify then
    match p.minify text with
    | .ok short => return short
    | .error reason => throw (.invalidSheet file reason)
  else return text

/-- A stylesheet with the rules of the registry. -/
def generate (c : Config) (p : SheetParser) (code file : String) : Registering GeneratedSheet := do
  check p code file
  let rules ← checkedRules p
  if isRoot c code then modify (Registry.addRoot file)
  let text ← finish c p (expanded c rules code) file
  return ⟨text, (← get).dependencies, isRoot c code⟩

end Sheet

end StaticStyle
