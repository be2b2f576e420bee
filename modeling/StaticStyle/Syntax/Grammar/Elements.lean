import StaticStyle.Syntax.Grammar.Functions

/-!
# Elements

Elements written as tags, with attributes, texts, interpolations and further
elements in them.  Between tags the text is not made of tokens, so children are
read from the characters after the last token.
-/

namespace StaticStyle.Syntax.Grammar

open StaticStyle.Syntax.Parser
open StaticStyle.Text (byteLength)

/-! ## Names -/

/-- Joins the next word with the hyphens and letters after it. -/
def joinHyphens : Parser Unit :=
  modify fun c => match c.token with
    | .word name escaped =>
        let (more, rest) := c.after.span fun x => x == '-' || isIdPart x
        c.rescan ⟨.word (name ++ String.ofList more) escaped,
          c.here.take (c.here.length - rest.length), rest⟩
    | _ => c

/-- The name of a tag or an attribute. -/
def elementWord : Parser String := do
  joinHyphens
  anyWord

/-- Whether a name in a tag is looked up: it does not start with a small ASCII
letter and holds no hyphen. -/
def isComponentName (n : String) : Bool :=
  !n.toList.contains '-' && !(n.toList.head?.any fun c => c.isLower)

/-- The name of a tag as it is written, and its node. -/
def tagName : Parser (String × Tree) := do
  let start ← position
  let first ← elementWord
  if ← eat ":" then
    let second ← elementWord
    let text := first ++ ":" ++ second
    return (text, ← node start (.elementName text) [])
  else
    let isPath ← atMark "."
    let base ← if first == "this" then node start .this []
      else if isPath || isComponentName first then node start (.reference first) []
      else node start (.elementName first) []
    extend (fun (text, t) => do
      if ← eat "." then
        let part ← elementWord
        return some (text ++ "." ++ part, ← node start (.elementMember part) [t])
      else return none) (first, base)

/-! ## Attributes -/

/-- An attribute string, which has no escapes. -/
def attributeString : Parser Tree := do
  let c ← get
  match c.here with
  | quote :: s =>
      require (quote == '"' || quote == '\'')
      let (body, rest) ← (scanElementString quote s).elim failure pure
      set (c.rescan ⟨.string (String.ofList body), quote :: body ++ [quote], rest⟩)
      stringNode
  | [] => failure

/-- An expression in braces. -/
def braced (self : Rules) : Parser Tree := do
  let start ← position
  expect "\x7b"
  let e ← allowingIn (self .expression)
  expect "\x7d"
  node start .interpolation [e]

/-- The value of an attribute. -/
def attributeValue (self : Rules) : Parser Tree := do
  if ← atMark "\x7b" then braced self
  else if ← atMark "<" then self .element
  else attributeString

/-- An attribute. -/
def tagAttribute (self : Rules) : Parser Tree := do
  let start ← position
  if ← eat "\x7b" then
    expect "..."
    let e ← allowingIn (self (.assignment false))
    expect "\x7d"
    node start .spread [e]
  else
    let first ← elementWord
    let text ← if ← eat ":" then do pure (first ++ ":" ++ (← elementWord)) else pure first
    let n ← node start (.elementName text) []
    let v ← if ← eat "=" then attributeValue self else absent
    node start .elementAttribute [n, v]

/-! ## Children -/

/-- What stands in braces between tags: nothing, a spread or an expression. -/
def childInterpolation (self : Rules) : Parser Tree := do
  let start ← position
  expect "\x7b"
  if ← eat "\x7d" then node start .interpolation []
  else if ← eat "..." then
    let e ← allowingIn (self (.assignment false))
    expect "\x7d"
    node start .spread [e]
  else
    let e ← allowingIn (self .expression)
    expect "\x7d"
    node start .interpolation [e]

/-- A child, or nothing before a closing tag. -/
def child (self : Rules) : Parser (Option Tree) := do
  let c ← get
  match c.before with
  | '<' :: '/' :: _ => return none
  | '<' :: _ => splitLess; return some (← self .element)
  | '{' :: _ => return some (← childInterpolation self)
  | [] => failure
  | s =>
      let (text, rest) := scanElementText s
      set (Cursor.at (c.last + byteLength text) rest)
      return some (← node c.last (.elementText (String.ofList text)) [])

/-- The closing tag, which has to have the name of the opening one. -/
def closingTag (expected : String) : Parser Tree := do
  splitLess
  let start ← position
  expect "<"
  expect "/"
  if expected.isEmpty then
    expect ">"
    node start .closingTag []
  else
    let (text, n) ← tagName
    require (text == expected)
    expect ">"
    node start .closingTag [n]

/-- Children up to the closing tag, and that tag. -/
def childrenAndClosing (self : Rules) (text : String) : Parser (List Tree) := do
  let cs ← many (child self)
  return cs ++ [← closingTag text]

/-- An element. -/
def elementRule (self : Rules) : Parser Tree := do
  let start ← position
  expect "<"
  if ← eat ">" then
    let opening ← node start (.openingTag false) []
    node start .element (opening :: (← childrenAndClosing self ""))
  else
    let (text, n) ← tagName
    let ts ← if (← read).language.typed && (← atLess) then typeArguments self else absent
    let attributes ← many do
      if (← atMark "/") || (← atMark ">") then return none
      else return some (← tagAttribute self)
    if ← eat "/" then
      expect ">"
      let opening ← node start (.openingTag true) (n :: ts :: attributes)
      node start .element [opening]
    else
      expect ">"
      let opening ← node start (.openingTag false) (n :: ts :: attributes)
      node start .element (opening :: (← childrenAndClosing self text))

end StaticStyle.Syntax.Grammar
