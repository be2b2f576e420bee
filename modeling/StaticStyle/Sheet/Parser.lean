/-!
# Stylesheet parsers

What the build needs to know about stylesheets: whether a text is one, and its
minified form.  The build takes a parser as an argument, so it can be run with
another notion of a stylesheet.
-/

namespace StaticStyle

/-- A notion of a valid stylesheet. -/
structure SheetParser where
  /-- Why a text is no stylesheet, or nothing if it is one. -/
  fault? : String → Option String
  /-- The minified form of a stylesheet, or why there is none. -/
  minify : String → Except String String

/-- Whether a text is a stylesheet. -/
def SheetParser.accepts (p : SheetParser) (css : String) : Bool := (p.fault? css).isNone

end StaticStyle
