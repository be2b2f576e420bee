import StaticStyle.Syntax.Grammar.Bindings

/-!
# Types

The grammar of types.  Types have no effect on what a module computes, but the
identifiers in them are references like any others.
-/

namespace StaticStyle.Syntax.Grammar

open StaticStyle.Syntax.Parser

/-! ## Parameters and arguments -/

/-- Takes the first character of a mark that starts with `<` for the mark `<`. -/
def splitLess : Parser Unit :=
  modify fun c => match c.token, c.here with
    | .mark _, '<' :: rest => c.rescan ⟨.mark "<", ['<'], rest⟩
    | _, _ => c

/-- Whether a mark comes next that starts with `<` and may open type arguments. -/
def atLess : Parser Bool := return (← atMark "<") || (← atMark "<<")

/-- A type parameter. -/
def typeParameter (self : Rules) : Parser Tree := do
  let start ← position
  let words ← modifiers ["const", "in", "out"] fun _ next _ => match next with
    | .word w _ => w != "extends"
    | _ => false
  let b ← binding
  let bound ← if ← eatWord "extends" then wholeType self else absent
  let default ← if ← eat "=" then wholeType self else absent
  node start (.typeParameter words) [b, bound, default]

/-- Type parameters in their brackets, if there are any. -/
def typeParameters (self : Rules) : Parser Tree := do
  if (← read).language.typed && (← atMark "<") then
    let start ← position
    advance
    let ps ← commaList ">" (typeParameter self)
    require !ps.isEmpty
    node start .typeParameters ps
  else absent

/-- Type arguments in their brackets. -/
def typeArguments (self : Rules) : Parser Tree := do
  let start ← position
  splitLess
  expect "<"
  let ts ← commaList ">" (wholeType self)
  require !ts.isEmpty
  node start .typeArguments ts

/-- Type arguments on the same line, if there are any. -/
def typeArgumentsHere (self : Rules) : Parser Tree := do
  if !(← afterNewline) && (← atLess) then typeArguments self else absent

/-! ## Names -/

/-- A name with points, its first part looked up. -/
def qualifiedName : Parser Tree := do
  let start ← position
  let first ← if ← eatWord "this" then node start .this [] else reference
  extend (fun t => do
    if ← eat "." then return some (← node start .qualified [t, ← memberName])
    else return none) first

/-- A type that is called by its name. -/
def typeReference (self : Rules) : Parser Tree := do
  let start ← position
  let n ← qualifiedName
  node start .typeReference [n, ← typeArgumentsHere self]

/-- A type that is imported where it is used. -/
def importType (self : Rules) : Parser Tree := do
  let start ← position
  expectWord "import"
  expect "("
  let ts ← commaList ")" (wholeType self)
  let path ← if ← eat "." then qualifiedName else absent
  node start .typeImport (ts ++ [path, ← typeArgumentsHere self])

/-- The type of a variable. -/
def typeQuery (self : Rules) : Parser Tree := do
  let start ← position
  expectWord "typeof"
  if ← atWord "import" then
    node start .typeQuery [← importType self]
  else
    let n ← qualifiedName
    node start .typeQuery [n, ← typeArgumentsHere self]

/-! ## Results -/

/-- The type of a result, which may be a predicate on a parameter; `type` parses the
types in it. -/
def predicateOr (type : Parser Tree) : Parser Tree := do
  let start ← position
  let ctx ← read
  let c ← get
  let isSubject (t : Token) := isIdentifierToken ctx t || t == .word "this" false
  let second := c.next
  if c.token == .word "asserts" false && isSubject second.token && !second.newline then
    advance
    let subject ← name
    let t ← if ← eatWord "is" then type else absent
    node start (.typePredicate true) [subject, t]
  else if isSubject c.token && second.token == .word "is" false && !second.newline then
    let subject ← name
    advance
    let t ← type
    node start (.typePredicate false) [subject, t]
  else type

/-- The type of a result. -/
def resultType (self : Rules) : Parser Tree := predicateOr (wholeType self)

/-- The type of a result after a colon, if there is one. -/
def resultAnnotation (self : Rules) : Parser Tree := do
  if (← read).language.typed && (← eat ":") then resultType self
  else absent

/-! ## Functions -/

/-- Type parameters, parameters and the result after an arrow.  The result can be a
condition only if the whole can. -/
def functionTypeParts (self : Rules) : Parser (List Tree) := do
  let ts ← typeParameters self
  let ps ← parameters self
  expect "=>"
  let r ← predicateOr (self .type)
  return [ts, ps, r]

/-- A type of functions. -/
def functionType (self : Rules) : Parser Tree := do
  let start ← position
  node start .typeFunction (← functionTypeParts self)

/-- A type of constructors. -/
def constructorType (self : Rules) : Parser Tree := do
  let start ← position
  let isAbstract ← eatWord "abstract"
  expectWord "new"
  node start (.typeConstructor isAbstract) (← functionTypeParts self)

/-! ## Members -/

/-- The end of a member of an object type. -/
def memberEnd : Parser Unit := do
  if (← eat ";") || (← eat ",") then return
  require (← mayEnd)

/-- Whether an index signature comes next. -/
def atIndexSignature : Parser Bool := do
  let ctx ← read
  let c ← get
  let second := c.next
  return c.token == .mark "[" && isIdentifierToken ctx second.token
    && second.next.token == .mark ":"

/-- The parts of an index signature: the name and type of the index, and the type
of the value. -/
def indexSignature (self : Rules) : Parser (List Tree) := do
  expect "["
  let n ← name
  let k ← annotation self
  expect "]"
  let v ← annotation self
  return [n, k, v]

/-- Type parameters, parameters and the result after a colon. -/
def signatureParts (self : Rules) : Parser (List Tree) := do
  let ts ← typeParameters self
  let ps ← parameters self
  let r ← resultAnnotation self
  return [ts, ps, r]

/-- Whether the parts of a signature come next. -/
def atSignature : Parser Bool := return (← atMark "(") || (← atMark "<")

/-- A member of an object type. -/
def typeMember (self : Rules) : Parser Tree := do
  let start ← position
  let construct := (← atWord "new") && (match (← peek).1 with
    | .mark m => m == "(" || m == "<"
    | _ => false)
  let parts ← if ← atSignature then
      pure (Kind.signature "call" false [], ← signatureParts self)
    else if construct then do
      advance
      pure (Kind.signature "new" false [], ← signatureParts self)
    else do
      let words ← modifiers ["readonly"] fun _ next _ => startsKey next
      if ← atIndexSignature then
        pure (Kind.signature "index" false words, ← indexSignature self)
      else
        let accessor ← modifiers ["get", "set"] fun _ next _ => startsKey next
        let (_, k) ← key self
        let isOptional ← eat "?"
        if ← atSignature then
          pure (Kind.signature (accessor.headD "method") isOptional words,
            k :: (← signatureParts self))
        else
          pure (Kind.signature "field" isOptional words, [k, ← annotation self])
  memberEnd
  node start parts.1 parts.2

/-- A mark in front of a modifier of a mapped type, with the modifier. -/
def mappedModifier (isThere : Parser Bool) : Parser String := do
  if ← eat "+" then require (← isThere); return "+"
  else if ← eat "-" then require (← isThere); return "-"
  else if ← isThere then return "="
  else return ""

/-- A type that maps keys to types. -/
def mappedType (self : Rules) : Parser Tree := do
  let start ← position
  expect "\x7b"
  let readonlyMark ← mappedModifier (eatWord "readonly")
  expect "["
  let b ← binding
  expectWord "in"
  let keys ← wholeType self
  let renamed ← if ← eatWord "as" then wholeType self else absent
  expect "]"
  let optionalMark ← mappedModifier (eat "?")
  let v ← annotation self
  discard (eat ";" <||> eat ",")
  expect "\x7d"
  node start (.typeMapped readonlyMark optionalMark) [b, keys, renamed, v]

/-- Whether the brace that comes next starts a mapped type. -/
def atMappedType : Parser Bool := lookAhead do
  expect "\x7b"
  discard (eat "+" <||> eat "-")
  discard (eatWord "readonly")
  expect "["
  discard identifier
  expectWord "in"

/-- A type of objects, by its members. -/
def objectType (self : Rules) : Parser Tree := do
  let start ← position
  expect "\x7b"
  node start .typeObject (← manyUntil "\x7d" (typeMember self))

/-! ## Tuples and templates -/

/-- An element of a tuple. -/
def tupleElement (self : Rules) : Parser Tree := do
  let start ← position
  let isRest ← eat "..."
  let c ← get
  let second := c.next
  let isWord := match c.token with
    | .word .. => true
    | _ => false
  let named := isWord && (second.token == .mark ":" ||
    (second.token == .mark "?" && second.next.token == .mark ":"))
  if named then
    let n ← name
    let isOptional ← eat "?"
    expect ":"
    let t ← wholeType self
    node start (.typeElement true isOptional isRest) [n, t]
  else
    let t ← wholeType self
    let isOptional ← eat "?"
    if isRest || isOptional then node start (.typeElement false isOptional isRest) [t] else return t

/-- A type written as a template. -/
def templateType (self : Rules) : Parser Tree := do
  let start ← position
  let (texts, ts) ← templateParts (wholeType self) false
  node start (.typeTemplate texts) ts

/-! ## Types -/

/-- The names of types that are keywords. -/
def typeKeywords : List String :=
  ["any", "unknown", "string", "number", "boolean", "symbol", "bigint", "object", "never",
   "undefined", "null", "void", "this", "intrinsic"]

/-- A literal as a type. -/
def literalType : Parser Tree := do
  let start ← position
  let negative ← eat "-"
  let at_ ← position
  match ← token with
  | .number literal => advance; node start .typeLiteral [← node at_ (.number literal) []]
  | .bigint literal => advance; node start .typeLiteral [← node at_ (.bigint literal) []]
  | .string value =>
      require !negative
      node start .typeLiteral [← (do advance; node at_ (.string value) [])]
  | _ => failure

/-- A type without operators around it. -/
def primaryType (self : Rules) : Parser Tree := do
  let start ← position
  match ← token with
  | .mark "(" =>
      advance
      let t ← wholeType self
      expect ")"
      node start .typeParenthesized [t]
  | .mark "[" =>
      advance
      node start .typeTuple (← commaList "]" (tupleElement self))
  | .mark "\x7b" => if ← atMappedType then mappedType self else objectType self
  | .template .. => templateType self
  | .word "typeof" _ => typeQuery self
  | .word "import" _ => importType self
  | .word "true" _ => advance; node start .typeLiteral [← node start (.boolean true) []]
  | .word "false" _ => advance; node start .typeLiteral [← node start (.boolean false) []]
  | .word w _ =>
      if typeKeywords.contains w && (← peek).1 != .mark "." then
        advance
        node start (.typeKeyword w) []
      else typeReference self
  | _ => literalType

/-- A type with the brackets that follow it. -/
def postfixType (self : Rules) : Parser Tree := do
  let t ← primaryType self
  extend (fun t => do
    if (← atMark "[") && !(← afterNewline) then
      advance
      if ← eat "]" then return some (← node t.span.start .typeArray [t])
      let i ← wholeType self
      expect "]"
      return some (← node t.span.start .typeIndexed [t, i])
    else return none) t

/-- A name that is bound where a type is matched, with its constraint.  Where a
condition could follow, the constraint is one only if no question does. -/
def inferType (self : Rules) : Parser Tree := do
  let start ← position
  expectWord "infer"
  let b ← binding
  let constraint ← attempt do
    expectWord "extends"
    let t ← inContext (fun c => { c with allowConditional := false }) (self .type)
    require (!(← read).allowConditional || !(← atMark "?"))
    return t
  node start .typeInfer [b, ← constraint.elim absent pure]

/-- The operators in front of a type. -/
def typeOperators : List String := ["keyof", "unique", "readonly"]

/-- A type with the operators in front of it. -/
def operatorType (self : Rules) : Parser Tree := do
  let ctx ← read
  let operators ← many do
    match ← token with
    | .word w false =>
        if typeOperators.contains w then
          let at_ ← position
          advance
          return some (w, at_)
        else return none
    | _ => return none
  let t ← if (← atWord "infer") && isIdentifierToken ctx (← peek).1 then inferType self
    else postfixType self
  let stop ← lastStop
  return operators.foldr (fun (w, at_) t => .node (.typeOperator w) ⟨at_, stop⟩ [t]) t

/-- Types with a mark between them, and possibly one in front. -/
def markedTypes (mark : String) (kind : Kind) (item : Parser Tree) : Parser Tree := do
  let start ← position
  let leading ← eat mark
  match ← separated mark item with
  | [t] => if leading then node start kind [t] else return t
  | ts => node start kind ts

/-- Whether a type of functions comes next. -/
def atFunctionType (self : Rules) : Parser Bool := do
  if ← atMark "<" then return true
  if !(← atMark "(") then return false
  lookAhead do
    discard (parameters self)
    require (← atMark "=>")

/-- Whether a type of constructors comes next. -/
def atConstructorType : Parser Bool := do
  return (← atWord "new") || ((← atWord "abstract") && (← peek).1 == .word "new" false)

/-- A type without a condition. -/
def unionType (self : Rules) : Parser Tree := do
  markedTypes "|" .typeUnion (markedTypes "&" .typeIntersection (operatorType self))

/-- A type. -/
def typeRule (self : Rules) : Parser Tree := do
  let start ← position
  if ← atFunctionType self then functionType self
  else if ← atConstructorType then constructorType self
  else
    let t ← unionType self
    if (← read).allowConditional && !(← afterNewline) && (← atWord "extends") then
      advance
      let bound ← inContext (fun c => { c with allowConditional := false }) (self .type)
      expect "?"
      let a ← wholeType self
      expect ":"
      let b ← wholeType self
      node start .typeConditional [t, bound, a, b]
    else return t

end StaticStyle.Syntax.Grammar
