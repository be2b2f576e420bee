import StaticStyle.Syntax.Grammar.Elements

/-!
# Expressions

Expressions from the literals up to assignments and arrow functions.

Infix operators are read as a row of operands with the operators between them,
and the row is then folded by precedence: `fold` keeps a stack of the operands
that still wait for something that binds more tightly.

A parenthesis may start an arrow function.  What follows it often decides: when
it does not, the arrow function is tried first and the parenthesised expression
is read if that fails.

A target of an assignment is read as an expression and then checked by
`toTarget`, which turns arrays and objects into patterns.
-/

namespace StaticStyle.Syntax.Grammar

open StaticStyle.Syntax.Parser

/-! ## Targets of assignments -/

/-- Whether an expression may be assigned to as it is. -/
def isSimpleTarget : Tree → Bool
  | .node (.reference _) _ _ => true
  | .node (.member skips) _ _ => !skips
  | .node (.index skips) _ _ => !skips
  | .node .parenthesized _ (e :: _) => isSimpleTarget e
  | .node .asType _ (e :: _) => isSimpleTarget e
  | .node .satisfiesType _ (e :: _) => isSimpleTarget e
  | .node .nonNull _ (e :: _) => isSimpleTarget e
  | .node .cast _ [_, e] => isSimpleTarget e
  | _ => false

mutual

/-- An expression as the target of an assignment. -/
def toTarget : Tree → Option Tree
  | .node .array s cs => (toTargets cs).map (.node .arrayPattern s)
  | .node .object s cs => (toTargets cs).map (.node .objectPattern s)
  | .node (.assign "=") s [t, e] => some (.node .withDefault s [t, e])
  | .node .coverDefault s cs => some (.node .withDefault s cs)
  | t => if isSimpleTarget t then some t else none

/-- The items of an array or an object as parts of a pattern. -/
def toTargets : List Tree → Option (List Tree)
  | [] => some []
  | [.node .spread s [e]] => (toTarget e).map fun e => [.node .rest s [e]]
  | .node .elision s cs :: ts => (toTargets ts).map (.node .elision s cs :: ·)
  | .node (.property .value computed shorthand) s [k, v] :: ts => do
      let v ← toTarget v
      let ts ← toTargets ts
      return .node (.patternProperty computed shorthand) s [k, v] :: ts
  | t :: ts => do
      let t ← toTarget t
      let ts ← toTargets ts
      return t :: ts

end

/-! ## Folding infix operators -/

/-- An operand that waits for the other operand of an operator. -/
structure Waiting where
  /-- The operand. -/
  left : Tree
  /-- The operator after it. -/
  op : InfixOperator

/-- What follows an operand. -/
inductive Follower where
  /-- An operator and another operand. -/
  | operator (op : InfixOperator) (right : Tree)
  /-- A type that the operand is given. -/
  | type (kind : Kind) (type : Tree)

/-- An operator with its operands. -/
def join (left : Tree) (op : InfixOperator) (right : Tree) : Tree :=
  let kind : Kind := match op, left.kind with
    | .binary .elementOf, .privateName _ => .privateIn
    | .binary op, _ => .binary op
    | .logical op, _ => .logical op
  .node kind ⟨left.span.start, right.span.stop⟩ [left, right]

/-- Completes the operators on the stack that bind more tightly than a precedence,
or as tightly unless they group to the right. -/
def reduce (precedence : Nat) (rightAssociative : Bool) : List Waiting → Tree →
    List Waiting × Tree
  | [], t => ([], t)
  | w :: ws, t =>
      if precedence < w.op.precedence ||
          (precedence == w.op.precedence && !rightAssociative) then
        reduce precedence rightAssociative ws (join w.left w.op t)
      else (w :: ws, t)

/-- Folds a row of operands and operators by precedence. -/
def fold : List Waiting → Tree → List Follower → Tree
  | stack, t, [] => (reduce 0 false stack t).2
  | stack, t, .operator op right :: rest =>
      let (stack, t) := reduce op.precedence op.isRightAssociative stack t
      fold (⟨t, op⟩ :: stack) right rest
  | stack, t, .type kind type :: rest =>
      let (stack, t) := reduce comparePrecedence false stack t
      fold stack (.node kind ⟨t.span.start, type.span.stop⟩ [t, type]) rest

/-- Whether a tree is a private name. -/
def isPrivateName (t : Tree) : Bool :=
  match t.kind with
  | .privateName _ => true
  | _ => false

/-- Whether followers may stand behind an operand, given whether that is a private name, and
whether the operator in front of it binds as tightly as `in`: a private name is no expression of
its own, and nothing but `in` asks about it. -/
def isRow (isPrivate isTight : Bool) : List Follower → Bool
  | [] => !isPrivate
  | .operator op right :: rest =>
      (!isPrivate || (op == .binary .elementOf && !isTight)) &&
        isRow (isPrivateName right) (comparePrecedence ≤ op.precedence) rest
  | .type _ _ :: rest => !isPrivate && isRow false isTight rest

/-! ## Literals of arrays and objects -/

/-- An item of an array or an argument of a call. -/
def itemOrSpread (self : Rules) : Parser Tree := do
  let start ← position
  if ← eat "..." then
    node start .spread [← self (.assignment false)]
  else self (.assignment false)

/-- An array. -/
def arrayLiteral (self : Rules) : Parser Tree := do
  let start ← position
  expect "["
  node start .array (← allowingIn (commaList "]" do
    if ← atMark "," then
      let here ← position
      return .node .elision ⟨here, here⟩ []
    else itemOrSpread self))

/-- A method of an object from its key on. -/
def objectMethod (self : Rules) (start : Nat) (form : MemberForm) (async generator : Bool) :
    Parser Tree := do
  let (computed, k) ← key self
  let f ← methodFunction self async generator
  node start (.property form computed false) [k, f]

/-- A property of an object. -/
def objectProperty (self : Rules) : Parser Tree := do
  let start ← position
  if ← eat "..." then
    node start .spread [← self (.assignment false)]
  else if ← atMemberWord "get" then
    advance
    objectMethod self start .getter false false
  else if ← atMemberWord "set" then
    advance
    objectMethod self start .setter false false
  else if ← atMemberWord "async" then
    advance
    let generator ← eat "*"
    objectMethod self start .method true generator
  else if ← eat "*" then
    objectMethod self start .method false true
  else
    let shorthand := (← atIdentifier) && (match (← peek).1 with
      | .mark m => m == "," || m == "\x7d" || m == "="
      | _ => false)
    if shorthand then
      let k ← look name
      let r ← reference
      if ← eat "=" then
        let e ← self (.assignment false)
        let v ← node start .coverDefault [r, e]
        node start (.property .value false true) [k, v]
      else node start (.property .value false true) [k, r]
    else
      let (computed, k) ← key self
      if ← atSignature then
        let f ← methodFunction self false false
        node start (.property .method computed false) [k, f]
      else
        expect ":"
        let v ← self (.assignment false)
        node start (.property .value computed false) [k, v]

/-- An object. -/
def objectLiteral (self : Rules) : Parser Tree := do
  let start ← position
  expect "\x7b"
  node start .object (← allowingIn (commaList "\x7d" (objectProperty self)))

/-- A template. -/
def templateLiteral (self : Rules) (tagged : Bool) : Parser Tree := do
  let start ← position
  let (texts, es) ← templateParts (allowingIn (self .expression)) tagged
  node start (.template texts) es

/-- A regular expression, whose first slash was taken for an operator. -/
def regexLiteral : Parser Tree := do
  let start ← position
  let c ← get
  let (pattern, flags, rest) ← (scanRegex (c.here.drop 1)).elim failure pure
  set (c.rescan ⟨.invalid, c.here.take (c.here.length - rest.length), rest⟩)
  advance
  node start (.regex pattern flags) []

/-! ## Primary expressions -/

/-- An expression in parentheses. -/
def parenthesized (self : Rules) : Parser Tree := do
  let start ← position
  expect "("
  let e ← allowingIn (self .expression)
  expect ")"
  node start .parenthesized [e]

/-- A class with decorators in front of it. -/
def decoratedClass (self : Rules) : Parser Tree := do
  let start ← position
  let ds ← decorators self
  let isAbstract ← eatWord "abstract"
  classFrom self start ds isAbstract

/-- Whether an asynchronous function comes next. -/
def atAsyncFunction : Parser Bool := do
  let (next, newline) ← peek
  return (← atWord "async") && next == .word "function" false && !newline

/-- An expression that is not made from smaller ones by an operator. -/
def primary (self : Rules) : Parser Tree := do
  let start ← position
  match ← token with
  | .string value => advance; node start (.string value) []
  | .number literal => advance; node start (.number literal) []
  | .bigint literal => advance; node start (.bigint literal) []
  | .template .. => templateLiteral self false
  | .mark "(" => parenthesized self
  | .mark "[" => arrayLiteral self
  | .mark "\x7b" => objectLiteral self
  | .mark "/" => regexLiteral
  | .mark "/=" => regexLiteral
  | .mark "@" => decoratedClass self
  | .mark "<" => do
      require (← read).language.elements
      allowingIn (self .element)
  | .word "this" false => advance; node start .this []
  | .word "null" false => advance; node start .null []
  | .word "true" false => advance; node start (.boolean true) []
  | .word "false" false => advance; node start (.boolean false) []
  | .word "function" false => functionFrom self start false true
  | .word "class" false => classFrom self start (← group []) false
  | .word _ _ =>
      if ← atAsyncFunction then
        advance
        functionFrom self start true true
      else reference
  | _ => failure

/-! ## Members and calls -/

/-- The arguments of a call. -/
def arguments (self : Rules) : Parser (List Tree) := do
  expect "("
  allowingIn (commaList ")" (itemOrSpread self))

/-- Whether the next token, after type arguments, leaves them standing on their
own: it cannot start an expression. -/
def canFollowTypeArguments : Parser Bool := do
  if ← afterNewline then return true
  match ← token with
  | .mark m => return !(["<", "+", "-", "[", "\x7b", "!", "~", "++", "--", "@", ">"].contains m)
  | .word w _ => return ["as", "satisfies", "in", "instanceof", "implements"].contains w
  | .endOfText => return true
  | _ => return false

/-- Type arguments after an expression, if what follows agrees: a call, a template,
or anything that starts no expression. -/
def tryTypeArguments (self : Rules) : Parser (Option Tree) := do
  if !((← read).language.typed && (← atLess)) then return none
  attempt do
    let ts ← typeArguments self
    let good := match ← token with
      | .mark "(" => true
      | .template .. => true
      | _ => false
    require (good || (← canFollowTypeArguments))
    return ts

/-- An expression in brackets after an object. -/
def indexed (self : Rules) (t : Tree) (isOptional : Bool) : Parser Tree := do
  expect "["
  let i ← allowingIn (self .expression)
  expect "]"
  node t.span.start (.index isOptional) [t, i]

/-- The part after `?.`. -/
def optionalPart (self : Rules) (t : Tree) : Parser Tree := do
  if ← atMark "(" then
    let ts ← absent
    node t.span.start (.call true) (t :: ts :: (← arguments self))
  else if ← atMark "[" then indexed self t true
  else if ← atMark "<" then
    let ts ← typeArguments self
    node t.span.start (.call true) (t :: ts :: (← arguments self))
  else node t.span.start (.member true) [t, ← memberName]

/-- One more member after an object, but no call. -/
def memberStep (self : Rules) (t : Tree) : Parser (Option Tree) := do
  match ← token with
  | .mark "." => advance; return some (← node t.span.start (.member false) [t, ← memberName])
  | .mark "[" =>
      if (← read).decorating then return none
      return some (← indexed self t false)
  | .mark "!" =>
      if (← read).language.typed && !(← afterNewline) then
        advance
        return some (← node t.span.start .nonNull [t])
      else return none
  | .template .. =>
      let ts ← absent
      let e ← templateLiteral self true
      return some (← node t.span.start .taggedTemplate [t, ts, e])
  | _ => return none

/-- The expression after `new`, with its members. -/
def newExpression (self : Rules) : Parser Tree := do
  let start ← position
  expectWord "new"
  if ← eat "." then
    expectWord "target"
    node start (.metaProperty "new.target") []
  else
    let f ← self .callee
    let ts ← (← tryTypeArguments self).elim absent pure
    let as_ ← if ← atMark "(" then arguments self else pure []
    node start .construct (f :: ts :: as_)

/-- `import` as the start of an expression. -/
def importExpression (self : Rules) : Parser Tree := do
  let start ← position
  expectWord "import"
  if ← eat "." then
    expectWord "meta"
    node start (.metaProperty "import.meta") []
  else
    let as_ ← arguments self
    require (as_.length == 1 || as_.length == 2)
    node start .importCall as_

/-- `super` with what has to follow it. -/
def superExpression : Parser Tree := do
  let start ← position
  expectWord "super"
  require ((← atMark "(") || (← atMark ".") || (← atMark "["))
  node start .super []

/-- What members and calls are built on. -/
def memberBase (self : Rules) : Parser Tree := do
  match ← token with
  | .word "new" false => newExpression self
  | .word "import" false => importExpression self
  | .word "super" false => superExpression
  | _ => primary self

/-- An expression without calls. -/
def calleeRule (self : Rules) : Parser Tree := do
  extend (memberStep self) (← memberBase self)

/-- One more member or call after an expression, with the news whether some part
of it is optional. -/
def callStep (self : Rules) : Tree × Bool → Parser (Option (Tree × Bool))
  | (t, inChain) => do
    if ← eat "?." then return some (← optionalPart self t, true)
    if ← atMark "(" then
      let ts ← absent
      let as_ ← arguments self
      return some (← node t.span.start (.call false) (t :: ts :: as_), inChain)
    if let some ts ← tryTypeArguments self then
      if ← atMark "(" then
        let as_ ← arguments self
        return some (← node t.span.start (.call false) (t :: ts :: as_), inChain)
      else if let .template .. ← token then
        let e ← templateLiteral self true
        return some (← node t.span.start .taggedTemplate [t, ts, e], inChain)
      else return some (← node t.span.start .instantiation [t, ts], inChain)
    if inChain then
      if let .template .. ← token then failure
    return (← memberStep self t).map fun t => (t, inChain)

/-- An expression with its members and calls. -/
def leftHandSideRule (self : Rules) : Parser Tree := do
  let (t, inChain) ← extend (callStep self) (← memberBase self, false)
  if inChain then node t.span.start .chain [t] else return t

/-! ## Unary operators -/

/-- An expression with the operators in front of it and behind it. -/
def unaryRule (self : Rules) : Parser Tree := do
  let start ← position
  let ctx ← read
  let applied (op : UnaryOperator) : Parser Tree := do
    advance
    node start (.unary op) [← self .unary]
  let postfixed : Parser Tree := do
    let t ← self .leftHandSide
    if ((← atMark "++") || (← atMark "--")) && !(← afterNewline) then
      require (isSimpleTarget t)
      let isPlus ← eat "++"
      if !isPlus then expect "--"
      node start (.update (if isPlus then "++" else "--") false) [t]
    else return t
  match ← token with
  | .mark m =>
      if m == "++" || m == "--" then
        advance
        let t ← self .unary
        require (isSimpleTarget t)
        node start (.update m true) [t]
      else if m == "<" && ctx.language.typed && !ctx.language.elements then
        advance
        let t ← wholeType self
        expect ">"
        node start .cast [t, ← self .unary]
      else match UnaryOperator.ofText? m with
        | some op => applied op
        | none => postfixed
  | .word w false =>
      if w == "await" && ctx.awaits then
        advance
        node start .await [← self .unary]
      else match UnaryOperator.ofText? w with
        | some op => applied op
        | none => postfixed
  | _ => postfixed

/-! ## Infix operators -/

/-- An operand: a unary expression, or a private name. -/
def operand (self : Rules) : Parser Tree := do
  match ← token with
  | .privateName text =>
      let start ← position
      advance
      node start (.privateName text) []
  | _ => self .unary

/-- Joins the characters of an operator that starts with `>`. -/
def joinShift : Parser Unit :=
  modify fun c => if c.token == .mark ">" then c.rescan (scanShift c.here) else c

/-- The operator or the type that follows an operand. -/
def follower (self : Rules) : Parser (Option Follower) := do
  joinShift
  let ctx ← read
  let after (text : String) : Parser (Option Follower) := do
    match InfixOperator.ofText? text with
    | some op =>
        advance
        return some (.operator op (← operand self))
    | none => return none
  match ← token with
  | .mark m => after m
  | .word w false =>
      if w == "in" && !ctx.allowIn then return none
      else if (w == "as" || w == "satisfies") && ctx.language.typed && !(← afterNewline) then
        advance
        let kind : Kind := if w == "as" then .asType else .satisfiesType
        if w == "as" && (← atWord "const") then
          let start ← position
          advance
          let n ← node start (.reference "const") []
          return some (.type kind (← node start .typeReference [n, ← absent]))
        else return some (.type kind (← wholeType self))
      else after w
  | _ => return none

/-- An expression with infix operators. -/
def infixExpression (self : Rules) : Parser Tree := do
  let first ← operand self
  let followers ← many (follower self)
  require (isRow (isPrivateName first) false followers)
  return fold [] first followers

/-! ## Arrow functions -/

/-- Whether the parenthesis or bracket that comes next starts an arrow function:
yes, no, or it has to be tried. -/
def arrowVerdict (async : Bool) : Parser (Option Bool) := do
  let ctx ← read
  let c ← get
  let second := c.next
  let third := second.next
  let isWord (t : Token) := match t with
    | .word .. => true
    | _ => false
  match c.token, second.token with
  | .mark "(", .mark ")" =>
      return some (third.token == .mark "=>" || third.token == .mark ":")
  | .mark "(", .mark "..." => return some true
  | .mark "(", .mark m => return if m == "[" || m == "\x7b" || m == "@" then none else some false
  | .mark "(", .word w _ =>
      if !isIdentifierToken ctx second.token && w != "this" then return some false
      if ctx.language.typed && parameterModifiers.contains w && !async && isWord third.token then
        return some true
      match third.token with
      | .mark ":" => return if ctx.language.typed then some true else some false
      | .mark "?" =>
          match third.next.token with
          | .mark m =>
              return some (ctx.language.typed && [":", ",", "=", ")"].contains m)
          | _ => return some false
      | .mark m => return if m == "," || m == "=" || m == ")" then none else some false
      | _ => return some false
  | .mark "(", _ => return some false
  | .mark "<", .word w _ =>
      if !ctx.language.typed then return some false
      if !ctx.language.elements then return none
      if w == "const" then return some true
      match third.token with
      | .word "extends" false =>
          return some (match third.next.token with
            | .mark m => !(["=", ">", "/"].contains m)
            | _ => true)
      | .mark m => return some (m == "," || m == "=")
      | _ => return some false
  | .mark "<", _ =>
      return some false
  | _, _ => return some false

/-- The part of an arrow function from its arrow on. -/
def arrowBody (self : Rules) (start : Nat) (async inCondition : Bool) (parts : List Tree) :
    Parser Tree := do
  require (!(← afterNewline))
  expect "=>"
  if ← atMark "\x7b" then
    let b ← functionBody self async false
    node start (.arrow async false) (parts ++ [b])
  else
    let e ← inContext (fun c => { c with awaits := async, yields := false }) <|
      self (.assignment inCondition)
    node start (.arrow async true) (parts ++ [e])

/-- An arrow function with its parameters in parentheses. -/
def parenthesizedArrow (self : Rules) (start : Nat) (async inCondition : Bool) : Parser Tree := do
  let ts ← typeParameters self
  let ps ← inContext (fun c => { c with awaits := c.awaits && !async, yields := false }) <|
    parameters self
  let r ← resultAnnotation self
  let t ← arrowBody self start async inCondition [ts, ps, r]
  if inCondition && !r.isAbsent then require (← atMark ":")
  return t

/-- An arrow function with a single name as its parameter. -/
def simpleArrow (self : Rules) (start : Nat) (async inCondition : Bool) : Parser Tree := do
  let ts ← absent
  let at_ ← position
  let ds ← group []
  let b ← binding
  let p ← node at_ (.parameter []) [ds, b]
  let ps ← node at_ .parameters [p]
  let r ← absent
  arrowBody self start async inCondition [ts, ps, r]

/-- An arrow function, if one comes next. -/
def arrowFunction (self : Rules) (inCondition : Bool) : Parser (Option Tree) := do
  let start ← position
  let ctx ← read
  let c ← get
  let second := c.next
  let tryParenthesized (async : Bool) : Parser (Option Tree) := do
    let p := parenthesizedArrow self start async inCondition
    match ← arrowVerdict async with
    | some true => return some (← p)
    | some false => return none
    | none => attempt p
  if isIdentifierToken ctx c.token && second.token == .mark "=>" then
    return some (← simpleArrow self start false inCondition)
  else if c.token == .word "async" false && !second.newline then
    if isIdentifierToken ctx second.token && second.next.token == .mark "=>" then
      advance
      return some (← simpleArrow self start true inCondition)
    else if second.token == .mark "(" || second.token == .mark "<" then
      attempt do
        advance
        (← tryParenthesized true).elim failure pure
    else return none
  else if c.token == .mark "(" || c.token == .mark "<" then tryParenthesized false
  else return none

/-! ## Assignments -/

/-- `yield` with what it gives. -/
def yieldExpression (self : Rules) : Parser Tree := do
  let start ← position
  expectWord "yield"
  if ← afterNewline then return ← node start (.yield false) []
  if ← eat "*" then
    node start (.yield true) [← self (.assignment false)]
  else
    let ends := match ← token with
      | .mark m => [")", "]", "\x7d", ",", ";", ":"].contains m
      | .endOfText => true
      | .word w _ => w == "in" || w == "of"
      | _ => false
    if ends then node start (.yield false) []
    else node start (.yield false) [← self (.assignment false)]

/-- An expression that is no list. -/
def assignmentRule (self : Rules) (inCondition : Bool) : Parser Tree := do
  let ctx ← read
  let start ← position
  if ctx.yields && (← atWord "yield") then return ← yieldExpression self
  if let some t ← arrowFunction self inCondition then return t
  let t ← infixExpression self
  if ← atMark "=" then
    let target ← (toTarget t).elim failure pure
    advance
    return ← node start (.assign "=") [target, ← self (.assignment inCondition)]
  if let .mark m ← token then
    if compoundAssignments.contains m then
      require (isSimpleTarget t)
      advance
      return ← node start (.assign m) [t, ← self (.assignment inCondition)]
  if ← eat "?" then
    let a ← inContext (fun c => { c with allowIn := true }) (self (.assignment true))
    expect ":"
    let b ← self (.assignment inCondition)
    return ← node start .conditional [t, a, b]
  return t

/-- Expressions with commas between them. -/
def expressionRule (self : Rules) : Parser Tree := do
  let start ← position
  match ← separated "," (self (.assignment false)) with
  | [t] => return t
  | ts => node start .sequence ts

end StaticStyle.Syntax.Grammar
