import StaticStyle.Syntax.Grammar.Types

/-!
# Functions and classes

Bodies, functions, methods and classes.  A body allows `return`, and decides for
what is inside it whether `await` and `yield` are operators.
-/

namespace StaticStyle.Syntax.Grammar

open StaticStyle.Syntax.Parser

/-! ## Bodies -/

/-- Runs a parser inside a function. -/
def inFunction {α : Type} (async generator : Bool) (p : Parser α) : Parser α :=
  inContext (fun c => { c with
    allowIn := true, awaits := async, yields := generator, returns := true, decorating := false }) p

/-- Statements with the strings at their front taken for directives. -/
def markDirectives : List Tree → List Tree
  | .node .expressionStatement s [.node (.string v) t []] :: rest =>
      .node (.directive v) s [.node (.string v) t []] :: markDirectives rest
  | ts => ts

/-- A body in its braces. -/
def functionBody (self : Rules) (async generator : Bool) : Parser Tree := do
  let start ← position
  expect "\x7b"
  let ss ← inFunction async generator (manyUntil "\x7d" (self .statement))
  node start .body (markDirectives ss)

/-- Type parameters, parameters, the type of the result and a body.  Where there
are types the body may be left out. -/
def functionParts (self : Rules) (async generator : Bool) : Parser (List Tree) := do
  let ts ← typeParameters self
  let ps ← inFunction async generator (parameters self)
  let r ← resultAnnotation self
  if (← read).language.typed && !(← atMark "\x7b") then
    semicolon
    return [ts, ps, r, ← absent]
  else
    return [ts, ps, r, ← functionBody self async generator]

/-- A function from its keyword on, after `async` if it has that. -/
def functionFrom (self : Rules) (start : Nat) (async isExpression : Bool) : Parser Tree := do
  expectWord "function"
  let generator ← eat "*"
  let n ← if isExpression then
      inContext (fun c => { c with awaits := async, yields := generator }) do
        if ← atIdentifier then binding else absent
    else if ← atIdentifier then binding else absent
  let parts ← functionParts self async generator
  if isExpression then require (parts.getLast?.any fun b => !b.isAbsent)
  node start (.function async generator) (n :: parts)

/-- A function whose parts start at its parameters, as in a method. -/
def methodFunction (self : Rules) (async generator : Bool) : Parser Tree := do
  let start ← position
  let n ← absent
  node start (.function async generator) (n :: (← functionParts self async generator))

/-! ## Classes -/

/-- The words that may stand in front of a member of a class. -/
def memberModifiers : List String :=
  ["public", "private", "protected", "static", "abstract", "override", "readonly", "declare",
   "accessor"]

/-- The modifiers that a language without types knows. -/
def plainModifiers : List String := ["static", "accessor"]

/-- Whether a token after a modifier of a member says that it is one. -/
def continuesMember (next : Token) : Bool :=
  startsKey next || next == .mark "*" || next == .mark "\x7b"

/-- The end of a field. -/
def fieldEnd : Parser Unit := semicolon

/-- A method or an accessor from its key on. -/
def methodFrom (self : Rules) (start : Nat) (ds : Tree) (words : List String)
    (form : MemberForm) (async generator : Bool) : Parser Tree := do
  let (computed, k) ← key self
  discard (eat "?")
  let f ← methodFunction self async generator
  node start (.method form computed words) [ds, k, f]

/-- A field or a method from its key on. -/
def memberFrom (self : Rules) (start : Nat) (ds : Tree) (words : List String) : Parser Tree := do
  let (computed, k) ← key self
  let typed := (← read).language.typed
  if typed then discard (eat "?" <||> eat "!")
  if ← atSignature then
    let f ← methodFunction self false false
    node start (.method .method computed words) [ds, k, f]
  else
    let t ← annotation self
    let v ← if ← eat "=" then inFunction false false (self (.assignment false)) else absent
    fieldEnd
    node start (.field computed words) [ds, k, t, v]

/-- Whether a word in front of a member makes it an accessor or asynchronous. -/
def atMemberWord (word : String) : Parser Bool := do
  let (next, newline) ← peek
  return (← atWord word) && (startsKey next || (word == "async" && next == .mark "*"))
    && (word != "async" || !newline)

/-- A member of a class. -/
def classMember (self : Rules) : Parser Tree := do
  let start ← position
  let ds ← decorators self
  let typed := (← read).language.typed
  let words ← modifiers (if typed then memberModifiers else plainModifiers) fun w next newline =>
    continuesMember next && (next != .mark "\x7b" || w == "static") && (w == "static" || !newline)
  if words.getLast? == some "static" && (← atMark "\x7b") then
    expect "\x7b"
    let ss ← inContext
      (fun c => { c with awaits := false, yields := false, returns := false }) <|
      allowingIn (manyUntil "\x7d" (self .statement))
    node start .staticBlock ss
  else if typed && (← atIndexSignature) then
    let parts ← indexSignature self
    fieldEnd
    node start (.signature "index" false words) parts
  else if ← atMemberWord "get" then
    advance
    methodFrom self start ds words .getter false false
  else if ← atMemberWord "set" then
    advance
    methodFrom self start ds words .setter false false
  else if ← atMemberWord "async" then
    advance
    let generator ← eat "*"
    methodFrom self start ds words .method true generator
  else if ← eat "*" then
    methodFrom self start ds words .method false true
  else memberFrom self start ds words

/-- The members of a class in their braces. -/
def classBody (self : Rules) : Parser Tree := do
  let start ← position
  expect "\x7b"
  let ms ← many do
    let _ ← many do if ← eat ";" then return some () else return none
    if ← eat "\x7d" then return none
    else return some (← allowingIn (classMember self))
  node start .classBody ms

/-- An interface that a class or an interface extends. -/
def heritage (self : Rules) : Parser Tree := do
  let start ← position
  let n ← qualifiedName
  node start .heritage [n, ← typeArgumentsHere self]

/-- A class from its keyword on, after its decorators and modifiers. -/
def classFrom (self : Rules) (start : Nat) (ds : Tree) (isAbstract : Bool) : Parser Tree := do
  expectWord "class"
  let typed := (← read).language.typed
  let named := (← atIdentifier) && !(typed && (← atWord "implements") && (← peek).1 != .mark "\x7b")
  let n ← if named then binding else absent
  let ts ← typeParameters self
  let (base, args) ← if ← eatWord "extends" then do
      let e ← self .leftHandSide
      match e with
      | .node .instantiation _ [e, args] => pure (e, args)
      | e => pure (e, ← if typed && (← atLess) then typeArguments self else absent)
    else pure (← absent, ← absent)
  let is ← if typed then (do
      if ← eatWord "implements" then group (← separated "," (heritage self)) else group [])
    else group []
  node start (.classDefinition isAbstract) [ds, n, ts, base, args, is, ← classBody self]

end StaticStyle.Syntax.Grammar
