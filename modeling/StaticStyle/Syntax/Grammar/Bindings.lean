import StaticStyle.Syntax.Grammar.Names

/-!
# Patterns and parameters

Patterns of bindings, the parameters of functions, and the annotations and
decorators that go with them.
-/

namespace StaticStyle.Syntax.Grammar

open StaticStyle.Syntax.Parser

/-! ## Annotations -/

/-- A type in a place where nothing around it limits it. -/
def wholeType (self : Rules) : Parser Tree := freshType (self .type)

/-- A type after a colon, if there is one. -/
def annotation (self : Rules) : Parser Tree := do
  if (← read).language.typed && (← eat ":") then wholeType self
  else absent

/-- A decorator: an expression after `@`. -/
def decorator (self : Rules) : Parser Tree := do
  let start ← position
  expect "@"
  let e ← inContext (fun c => { c with decorating := true }) (self .leftHandSide)
  node start .decorator [e]

/-- Any number of decorators. -/
def decorators (self : Rules) : Parser Tree := do
  group (← many do
    if ← atMark "@" then return some (← decorator self)
    else return none)

/-! ## Patterns -/

/-- A pattern with the default that may follow it. -/
def withDefault (self : Rules) (p : Tree) : Parser Tree := do
  if ← eat "=" then
    let e ← allowingIn (self (.assignment false))
    node p.span.start .withDefault [p, e]
  else return p

/-- What remains of an array or an object, which has to come last. -/
def restPattern (self : Rules) (closing : String) : Parser Tree := do
  let start ← position
  expect "..."
  let p ← self .pattern
  require (← atMark closing)
  node start .rest [p]

/-- An item of an array pattern. -/
def arrayPatternItem (self : Rules) : Parser Tree := do
  if ← atMark "..." then restPattern self "]"
  else if ← atMark "," then
    let at_ ← position
    return .node .elision ⟨at_, at_⟩ []
  else
    withDefault self (← self .pattern)

/-- An item of an object pattern. -/
def objectPatternItem (self : Rules) : Parser Tree := do
  if ← atMark "..." then restPattern self "\x7d"
  else
    let start ← position
    let shorthand := (← atIdentifier) && (match (← peek).1 with
      | .mark m => m == "," || m == "\x7d" || m == "="
      | _ => false)
    if shorthand then
      let k ← look name
      let b ← binding
      node start (.patternProperty false true) [k, ← withDefault self b]
    else
      let (computed, k) ← key self
      expect ":"
      let p ← withDefault self (← self .pattern)
      node start (.patternProperty computed false) [k, p]

/-- A pattern of bindings. -/
def patternRule (self : Rules) : Parser Tree := do
  let start ← position
  if ← eat "[" then
    node start .arrayPattern (← commaList "]" (arrayPatternItem self))
  else if ← eat "\x7b" then
    node start .objectPattern (← commaList "\x7d" (objectPatternItem self))
  else binding

/-- A pattern with the type that may follow it. -/
def typedPattern (self : Rules) (allowDefinite : Bool) : Parser Tree := do
  let p ← self .pattern
  if !(← read).language.typed then return p
  let definite ← if allowDefinite && !(← afterNewline) then eat "!" else pure false
  let isOptional ← eat "?"
  let t ← annotation self
  if t.isAbsent && !definite && !isOptional then return p
  else node p.span.start (.typed isOptional definite) [p, t]

/-! ## Parameters -/

/-- The words that may stand in front of a parameter. -/
def parameterModifiers : List String := ["public", "private", "protected", "override", "readonly"]

/-- Whether a token can start a pattern. -/
def startsPattern : Token → Bool
  | .word .. => true
  | .mark text => text == "\x7b" || text == "["
  | _ => false

/-- The parameter that gives a type to `this`. -/
def thisParameter (self : Rules) : Parser Tree := do
  let start ← position
  expectWord "this"
  let this ← node start .this []
  let t ← annotation self
  node start (.typed false false) [this, t]

/-- A parameter. -/
def parameter (self : Rules) : Parser Tree := do
  let start ← position
  let ds ← decorators self
  let typed := (← read).language.typed
  let words ← if typed then
      modifiers parameterModifiers fun _ next _ => startsPattern next
    else pure []
  if ← eat "..." then
    let p ← typedPattern self false
    require (← atMark ")")
    node start .rest [p]
  else
    let isThis ← if typed then atWord "this" else pure false
    let p ← if isThis then thisParameter self
      else withDefault self (← typedPattern self false)
    node start (.parameter words) [ds, p]

/-- The parameters of a function in their parentheses. -/
def parameters (self : Rules) : Parser Tree := do
  let start ← position
  expect "("
  let ps ← allowingIn (commaList ")" (parameter self))
  node start .parameters ps

end StaticStyle.Syntax.Grammar
