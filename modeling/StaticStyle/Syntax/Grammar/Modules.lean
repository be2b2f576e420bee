import StaticStyle.Syntax.Grammar.Statements

/-!
# Items of modules

Imports and exports, and the items a module consists of.
-/

namespace StaticStyle.Syntax.Grammar

open StaticStyle.Syntax.Parser

/-! ## Imports -/

/-- A name with another one after `as`, `type` in front of it making it a type.
`type`, `as` and their combinations are also names themselves. -/
def aliased (item : Parser Tree) : Parser (Bool × Tree × Option Tree) := do
  let typed := (← read).language.typed
  let c ← get
  let second := c.next
  let third := second.next
  let isWord (t : Token) := match t with
    | .word .. => true
    | .string _ => true
    | _ => false
  let isAs (t : Token) := t == .word "as" false
  let typeOnly := typed && c.token == .word "type" false && isWord second.token
    && (!isAs second.token || !isWord third.token ||
      (isAs third.token && isWord third.next.token))
  if typeOnly then advance
  let first ← item
  if ← eatWord "as" then return (typeOnly, first, some (← moduleName))
  else return (typeOnly, first, none)

/-- An imported name. -/
def importName : Parser Tree := do
  let start ← position
  let (typeOnly, imported, local?) ← aliased moduleName
  let toBinding (t : Tree) : Parser Tree := do
    match t with
    | .node (.name text) s _ =>
        require (isIdentifier (← read) text)
        return .node (.binding text) s []
    | _ => failure
  let b ← toBinding (local?.getD imported)
  node start (.importName typeOnly) [imported, b]

/-- The attributes of an import or export, if there are any. -/
def importAttributes : Parser (List Tree) := do
  let start ← position
  let there := (← atWord "with") || ((← atWord "assert") && !(← afterNewline))
  if there && (← peek).1 == .mark "\x7b" then
    advance
    advance
    let ps ← commaList "\x7d" do
      let at_ ← position
      let k ← moduleName
      expect ":"
      node at_ (.property .value false false) [k, ← stringNode]
    return [← node start .importAttributes ps]
  else return []

/-- `* as` and a name. -/
def namespaceImport : Parser Tree := do
  let start ← position
  expect "*"
  expectWord "as"
  node start .importNamespace [← binding]

/-- What an import names. -/
def importClause : Parser (List Tree) := do
  let defaults ← if ← atIdentifier then do
      let start ← position
      let b ← binding
      pure [← node start .importDefault [b]]
    else pure []
  let more := defaults.isEmpty || (← eat ",")
  if !more then return defaults
  if ← atMark "*" then return defaults ++ [← namespaceImport]
  expect "\x7b"
  return defaults ++ (← commaList "\x7d" importName)

/-- The rest of an import that gives a name to a module or a part of one. -/
def importEquals (start : Nat) (typeOnly : Bool) : Parser Tree := do
  let b ← binding
  expect "="
  let at_ ← position
  let target ← if (← atWord "require") && (← peek).1 == .mark "(" then do
      advance
      expect "("
      let source ← stringValue
      expect ")"
      node at_ (.externalModule source) []
    else qualifiedName
  semicolon
  node start (.importEquals typeOnly) [b, target]

/-- An import. -/
def importDeclaration : Parser Tree := do
  let start ← position
  expectWord "import"
  let finish (typeOnly : Bool) (names : List Tree) : Parser Tree := do
    let source ← stringValue
    let attributes ← importAttributes
    semicolon
    node start (.importDeclaration source typeOnly) (names ++ attributes)
  match ← token with
  | .string _ => finish false []
  | _ =>
      let ctx ← read
      let c ← get
      let second := c.next
      let third := second.next
      -- `type` is a name itself when `from` or a comma follows it
      let typeOnly := ctx.language.typed && c.token == .word "type" false &&
        (second.token == .mark "\x7b" || second.token == .mark "*" ||
          (isIdentifierToken ctx second.token &&
            (second.token != .word "from" false || third.token == .word "from" false
              || third.token == .mark "=")))
      if typeOnly then advance
      let isEquals := (← atIdentifier) && (← peek).1 == .mark "="
      if ctx.language.typed && isEquals then importEquals start typeOnly
      else
        let names ← importClause
        expectWord "from"
        finish typeOnly names

/-! ## Exports -/

/-- An exported name. -/
def exportName : Parser Tree := do
  let start ← position
  let (typeOnly, first, second) ← aliased moduleName
  let exported := second.getD first
  node start (.exportName typeOnly) [first, exported]

/-- An exported name of this module: the local name is looked up. -/
def localExport (ctx : Context) : Tree → Option Tree
  | .node (.exportName typeOnly) s (.node (.name text) t [] :: rest) =>
      if isIdentifier ctx text then
        some (.node (.exportName typeOnly) s (.node (.reference text) t [] :: rest))
      else none
  | _ => none

/-- Exported names in braces, possibly those of another module. -/
def exportNames (start : Nat) (typeOnly : Bool) : Parser Tree := do
  expect "\x7b"
  let names ← commaList "\x7d" exportName
  if ← eatWord "from" then
    let source ← stringValue
    let attributes ← importAttributes
    semicolon
    node start (.exportNames (some source) typeOnly) (names ++ attributes)
  else
    let ctx ← read
    let names ← (names.mapM (localExport ctx)).elim failure pure
    semicolon
    node start (.exportNames none typeOnly) names

/-- All names of another module. -/
def exportAll (start : Nat) (typeOnly : Bool) : Parser Tree := do
  expect "*"
  let n ← if ← eatWord "as" then moduleName else absent
  expectWord "from"
  let source ← stringValue
  let attributes ← importAttributes
  semicolon
  node start (.exportAll source typeOnly) (n :: attributes)

/-- What a module exports by default. -/
def exportDefault (self : Rules) (start : Nat) : Parser Tree := do
  let here ← position
  let typed := (← read).language.typed
  let d ← match ← token with
    | .mark "@" => decoratedClass self
    | .word "class" false => classFrom self here (← group []) false
    | .word "function" false => functionDeclaration self here
    | .word w false => do
        let (next, newline) ← peek
        if ← atAsyncFunction then functionDeclaration self here
        else if typed && w == "abstract" && next == .word "class" false then
          advance
          classFrom self here (← group []) true
        else if typed && w == "interface" && isIdentifierToken (← read) next && !newline then
          interfaceDeclaration self here
        else
          let e ← allowingIn (self (.assignment false))
          semicolon
          pure e
    | _ => do
        let e ← allowingIn (self (.assignment false))
        semicolon
        pure e
  node start .exportDefault [d]

/-- An export. -/
def exportDeclaration (self : Rules) : Parser Tree := do
  let start ← position
  expectWord "export"
  let typed := (← read).language.typed
  match ← token with
  | .mark "*" => exportAll start false
  | .mark "\x7b" => exportNames start false
  | .mark "=" =>
      require typed
      advance
      let e ← allowingIn (self .expression)
      semicolon
      node start .exportEquals [e]
  | .mark "@" => node start .exportDeclaration [← decoratedClass self]
  | .word "default" false => advance; exportDefault self start
  | .word "import" false =>
      require typed
      node start .exportDeclaration [← importDeclaration]
  | .word w false =>
      let (next, _) ← peek
      if typed && w == "as" && next == .word "namespace" false then
        advance
        advance
        let n ← name
        semicolon
        node start .exportNamespace [n]
      else if typed && w == "type" && (next == .mark "\x7b" || next == .mark "*") then
        advance
        if ← atMark "*" then exportAll start true else exportNames start true
      else
        require (← atDeclaration)
        let here ← position
        node start .exportDeclaration [← declaration self here]
  | _ => failure

/-! ## Items -/

/-- Decorators in front of an exported class. -/
def decoratedExport (self : Rules) : Parser Tree := do
  let start ← position
  let ds ← decorators self
  expectWord "export"
  let isDefault ← eatWord "default"
  let here ← position
  let isAbstract ← eatWord "abstract"
  let c ← classFrom self here ds isAbstract
  node start (if isDefault then .exportDefault else .exportDeclaration) [c]

/-- An item with decorators in front of it.  In front of what takes none they leave no
trace. -/
def decoratedItem (self : Rules) : Parser Tree :=
  decoratedExport self <|> decoratedClass self <|> do
    discard (decorators self)
    self .item

/-- An item of a module. -/
def itemRule (self : Rules) : Parser Tree := do
  match ← token with
  | .word "import" false =>
      let (next, _) ← peek
      if next == .mark "(" || next == .mark "." then self .statement
      else importDeclaration
  | .word "export" false => exportDeclaration self
  | .mark "@" => decoratedItem self
  | _ => self .statement

end StaticStyle.Syntax.Grammar
