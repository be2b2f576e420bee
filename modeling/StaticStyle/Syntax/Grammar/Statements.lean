import StaticStyle.Syntax.Grammar.Expressions

/-!
# Statements

Statements and the declarations of variables, functions, classes and types.

Most words that start a declaration of a type are ordinary identifiers, so what
follows on the same line decides.
-/

namespace StaticStyle.Syntax.Grammar

open StaticStyle.Syntax.Parser

/-! ## Variables -/

/-- A declared variable.  Unless `bare` allows it, a constant and a pattern need a
value. -/
def declarator (self : Rules) (kind : String) (bare : Bool) : Parser Tree := do
  let start ← position
  let p ← typedPattern self true
  let v ← if ← eat "=" then self (.assignment false) else absent
  let isName := match p with
    | .node (.binding _) _ _ => true
    | .node (.typed _ _) _ (.node (.binding _) _ _ :: _) => true
    | _ => false
  let needsValue := !isName || kind == "const"
  require (!v.isAbsent || bare || !needsValue)
  node start .declarator [p, v]

/-- Declared variables from their keyword on. -/
def variableList (self : Rules) (start : Nat) (bare : Bool) : Parser Tree := do
  let kind ← if ← eatWord "await" then do expectWord "using"; pure "await using" else anyWord
  let ds ← separated "," (declarator self kind bare)
  node start (.variableList kind) ds

/-- Whether a token can start a pattern of bindings. -/
def startsBinding (ctx : Context) (t : Token) : Bool :=
  isIdentifierToken ctx t || t == .mark "\x7b" || t == .mark "["

/-- Whether a declaration of variables comes next. -/
def atVariables : Parser Bool := do
  let ctx ← read
  let c ← get
  let second := c.next
  match c.token with
  | .word "var" false => return true
  | .word "const" false => return second.token != .word "enum" false
  | .word "let" false => return startsBinding ctx second.token
  | .word "using" false =>
      return isIdentifierToken ctx second.token && !second.newline
        && second.token != .word "of" false
  | .word "await" false =>
      let third := second.next
      return ctx.awaits && second.token == .word "using" false && !second.newline
        && isIdentifierToken ctx third.token && !third.newline
  | _ => return false

/-- Declared variables as a statement. -/
def variableStatement (self : Rules) (start : Nat) : Parser Tree := do
  let t ← variableList self start (← read).ambient
  semicolon
  node start t.kind t.children

/-! ## Blocks and branches -/

/-- Statements in braces. -/
def block (self : Rules) : Parser Tree := do
  let start ← position
  expect "\x7b"
  node start .block (← manyUntil "\x7d" (self .statement))

/-- An expression in parentheses that belong to a statement. -/
def condition (self : Rules) : Parser Tree := do
  expect "("
  let e ← allowingIn (self .expression)
  expect ")"
  return e

/-- A choice between two statements. -/
def conditionalStatement (self : Rules) (start : Nat) : Parser Tree := do
  expectWord "if"
  let c ← condition self
  let a ← self .statement
  let b ← if ← eatWord "else" then self .statement else absent
  node start .conditionalStatement [c, a, b]

/-- A case of a choice by value. -/
def switchCase (self : Rules) : Parser Tree := do
  let start ← position
  let value ← if ← eatWord "default" then absent
    else do expectWord "case"; allowingIn (self .expression)
  expect ":"
  let ss ← many do
    if (← atWord "case") || (← atWord "default") || (← atMark "\x7d") then return none
    else return some (← self .statement)
  node start .switchCase (value :: ss)

/-- A choice by value. -/
def switchStatement (self : Rules) (start : Nat) : Parser Tree := do
  expectWord "switch"
  let e ← condition self
  expect "\x7b"
  node start .switchStatement (e :: (← manyUntil "\x7d" (switchCase self)))

/-- A block with what happens when it fails and when it ends. -/
def tryStatement (self : Rules) (start : Nat) : Parser Tree := do
  expectWord "try"
  let b ← block self
  let at_ ← position
  let handler ← if ← eatWord "catch" then do
      let p ← if ← eat "(" then do
          let p ← typedPattern self false
          expect ")"
          pure p
        else absent
      node at_ .catchClause [p, ← block self]
    else absent
  let final ← if ← eatWord "finally" then block self else absent
  require (!handler.isAbsent || !final.isAbsent)
  node start .tryStatement [b, handler, final]

/-- A statement that looks up names in an object first. -/
def withStatement (self : Rules) (start : Nat) : Parser Tree := do
  expectWord "with"
  let e ← condition self
  node start .withStatement [e, ← self .statement]

/-! ## Loops -/

/-- A loop with its condition in front. -/
def whileLoop (self : Rules) (start : Nat) : Parser Tree := do
  expectWord "while"
  let c ← condition self
  node start .whileLoop [c, ← self .statement]

/-- A loop with its condition behind. -/
def doWhileLoop (self : Rules) (start : Nat) : Parser Tree := do
  expectWord "do"
  let b ← self .statement
  expectWord "while"
  let c ← condition self
  discard (eat ";")
  node start .doWhileLoop [b, c]

/-- The head of a loop over a collection, after what it binds. -/
def iterationHead (self : Rules) : Parser (Bool × Tree) := do
  if ← eatWord "of" then return (true, ← allowingIn (self (.assignment false)))
  else
    expectWord "in"
    return (false, ← allowingIn (self .expression))

/-- Whether a variable declaration has one variable without a value. -/
def bindsOne : Tree → Bool
  | .node _ _ [.node .declarator _ [_, v]] => v.isAbsent
  | _ => false

/-- Whether every variable that needs a value has one. -/
def haveValues (kind : Kind) (ds : List Tree) : Bool :=
  ds.all fun d => match d.children with
    | [.node (.binding _) _ _, v] => kind != .variableList "const" || !v.isAbsent
    | [.node (.typed _ _) _ (.node (.binding _) _ _ :: _), v] =>
        kind != .variableList "const" || !v.isAbsent
    | [_, v] => !v.isAbsent
    | _ => false

/-- The rest of a loop over a collection. -/
def iteration (self : Rules) (start : Nat) (async : Bool) (target : Tree) : Parser Tree := do
  let (isOf, e) ← iterationHead self
  require (isOf || !async)
  expect ")"
  let b ← self .statement
  node start (if isOf then .forOf async else .forIn) [target, e, b]

/-- The rest of a loop with a condition and a step, after its start. -/
def counted (self : Rules) (start : Nat) (first : Tree) : Parser Tree := do
  expect ";"
  let c ← if ← atMark ";" then absent else allowingIn (self .expression)
  expect ";"
  let s ← if ← atMark ")" then absent else allowingIn (self .expression)
  expect ")"
  let b ← self .statement
  node start .forLoop [first, c, s, b]

/-- A loop that starts with `for`. -/
def forStatement (self : Rules) (start : Nat) : Parser Tree := do
  expectWord "for"
  let async ← if (← read).awaits then eatWord "await" else pure false
  expect "("
  let at_ ← position
  if ← atMark ";" then
    require !async
    counted self start (← absent)
  else if ← atVariables then
    let vs ← inContext (fun c => { c with allowIn := false }) (variableList self at_ true)
    if (← atWord "of") || (← atWord "in") then
      require (bindsOne vs)
      iteration self start async vs
    else
      require (haveValues vs.kind vs.children && !async)
      counted self start vs
  else
    let e ← inContext (fun c => { c with allowIn := false }) (self .expression)
    if (← atWord "of") || (← atWord "in") then
      iteration self start async (← (toTarget e).elim failure pure)
    else
      require !async
      counted self start e

/-! ## Jumps -/

/-- A jump to the end or the next round of a statement, which may be named. -/
def jump (start : Nat) (kind : Kind) : Parser Tree := do
  advance
  let label ← if (← mayEnd) || (← atMark ";") then absent
    else do require (← atIdentifier); name
  semicolon
  node start kind [label]

/-- The end of a function. -/
def returnStatement (self : Rules) (start : Nat) : Parser Tree := do
  require (← read).returns
  expectWord "return"
  let e ← if (← mayEnd) || (← atMark ";") then absent else allowingIn (self .expression)
  semicolon
  node start .returnStatement [e]

/-- The raising of an exception. -/
def throwStatement (self : Rules) (start : Nat) : Parser Tree := do
  expectWord "throw"
  require (!(← afterNewline))
  let e ← allowingIn (self .expression)
  semicolon
  node start .throwStatement [e]

/-! ## Declarations of types -/

/-- A name for a type. -/
def typeAlias (self : Rules) (start : Nat) : Parser Tree := do
  expectWord "type"
  let b ← binding
  let ts ← typeParameters self
  expect "="
  let t ← wholeType self
  semicolon
  node start .typeAlias [b, ts, t]

/-- An interface. -/
def interfaceDeclaration (self : Rules) (start : Nat) : Parser Tree := do
  expectWord "interface"
  let b ← binding
  let ts ← typeParameters self
  let is ← if ← eatWord "extends" then group (← separated "," (heritage self)) else group []
  node start .interface [b, ts, is, ← objectType self]

/-- A member of an enumeration. -/
def enumerationMember (self : Rules) : Parser Tree := do
  let start ← position
  let (_, k) ← key self
  let v ← if ← eat "=" then allowingIn (self (.assignment false)) else absent
  node start .enumerationMember [k, v]

/-- An enumeration. -/
def enumeration (self : Rules) (start : Nat) : Parser Tree := do
  let isConst ← eatWord "const"
  expectWord "enum"
  let b ← binding
  expect "\x7b"
  node start (.enumeration isConst) (b :: (← commaList "\x7d" (enumerationMember self)))

/-- The items of a block of a module. -/
def moduleItems (self : Rules) : Parser Tree := do
  let start ← position
  expect "\x7b"
  let ss ← inContext (fun c => { c with returns := false }) (manyUntil "\x7d" (self .item))
  node start .block (markDirectives ss)

/-- A block of a module: a namespace, a module by name, or the global scope. -/
def moduleBlock (self : Rules) (start : Nat) : Parser Tree := do
  let keyword ← anyWord
  let n ← if keyword == "global" then absent
    else match ← token with
      | .string _ => stringNode
      | _ => do
          let b ← binding
          extend (fun t => do
            if ← eat "." then return some (← node t.span.start .qualified [t, ← name])
            else return none) b
  let b ← if ← atMark "\x7b" then moduleItems self else do semicolon; absent
  node start (.moduleBlock keyword) [n, b]

/-- Whether a declaration of a type comes next that starts with a certain word. -/
def atTypeDeclaration : Parser Bool := do
  let ctx ← read
  let c ← get
  let second := c.next
  let named := isIdentifierToken ctx second.token && !second.newline
  match c.token with
  | .word "type" false => return named
  | .word "interface" false => return named
  | .word "namespace" false => return named
  | .word "module" false =>
      return (named || (match second.token with
        | .string _ => true
        | _ => false)) && !second.newline
  | .word "global" false => return second.token == .mark "\x7b"
  | .word "abstract" false => return second.token == .word "class" false && !second.newline
  | .word "declare" false =>
      return !second.newline && (match second.token with
        | .word w _ => ["var", "let", "const", "function", "class", "abstract", "enum", "type",
            "interface", "namespace", "module", "global", "async", "using"].contains w
        | _ => false)
  | .word "enum" false => return named
  | .word "const" false => return second.token == .word "enum" false
  | _ => return false

/-! ## Declarations -/

/-- A function as a statement. -/
def functionDeclaration (self : Rules) (start : Nat) : Parser Tree := do
  let async ← eatWord "async"
  functionFrom self start async false

/-- A declaration of variables, a function, a class or a type, without anything in
front of it. -/
def plainDeclaration (self : Rules) (start : Nat) : Parser Tree := do
  match ← token with
  | .word "function" false => functionDeclaration self start
  | .word "async" false => functionDeclaration self start
  | .word "class" false => classFrom self start (← group []) false
  | .word "abstract" false => advance; classFrom self start (← group []) true
  | .word "type" false => typeAlias self start
  | .word "interface" false => interfaceDeclaration self start
  | .word "enum" false => enumeration self start
  | .word "namespace" false => moduleBlock self start
  | .word "module" false => moduleBlock self start
  | .word "global" false => moduleBlock self start
  | .word "const" false =>
      if (← peek).1 == .word "enum" false then enumeration self start
      else variableStatement self start
  | _ => variableStatement self start

/-- A declaration, possibly of something defined elsewhere. -/
def declaration (self : Rules) (start : Nat) : Parser Tree := do
  if (← read).language.typed && (← atWord "declare") then
    advance
    let here ← position
    let d ← inContext (fun c => { c with ambient := true }) (plainDeclaration self here)
    node start .declare [d]
  else plainDeclaration self start

/-- Whether a declaration comes next. -/
def atDeclaration : Parser Bool := do
  let typed := (← read).language.typed
  if ← atVariables then return true
  match ← token with
  | .word "function" false => return true
  | .word "class" false => return true
  | .word "async" false => atAsyncFunction
  | _ => if typed then atTypeDeclaration else return false

/-! ## Statements -/

/-- A statement that is an expression, or one with a label. -/
def expressionOrLabeled (self : Rules) (start : Nat) : Parser Tree := do
  if (← atIdentifier) && (← peek).1 == .mark ":" then
    let n ← name
    expect ":"
    node start .labeled [n, ← self .statement]
  else
    let e ← allowingIn (self .expression)
    semicolon
    node start .expressionStatement [e]

/-- A class with decorators in front of it, or a statement that takes none.  In front of
that they leave no trace. -/
def decoratedStatement (self : Rules) : Parser Tree :=
  decoratedClass self <|> do
    discard (decorators self)
    self .statement

/-- A statement. -/
def statementRule (self : Rules) : Parser Tree := do
  let start ← position
  match ← token with
  | .mark "\x7b" => block self
  | .mark ";" => advance; node start .empty []
  | .mark "@" => decoratedStatement self
  | .word w false =>
      if ← atDeclaration then declaration self start
      else match w with
        | "if" => conditionalStatement self start
        | "for" => forStatement self start
        | "while" => whileLoop self start
        | "do" => doWhileLoop self start
        | "continue" => jump start .continueStatement
        | "break" => jump start .breakStatement
        | "return" => returnStatement self start
        | "throw" => throwStatement self start
        | "try" => tryStatement self start
        | "switch" => switchStatement self start
        | "with" => withStatement self start
        | "debugger" => do
            advance
            semicolon
            node start .debugger []
        | _ => expressionOrLabeled self start
  | _ => expressionOrLabeled self start

end StaticStyle.Syntax.Grammar
