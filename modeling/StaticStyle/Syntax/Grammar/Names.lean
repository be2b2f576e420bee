import StaticStyle.Syntax.Cursor

/-!
# Names

Identifiers, keys of members, and the names that types and modules are written
with.  A reserved word is no identifier, with or without escapes, but it may be
the name of a member.
-/

namespace StaticStyle.Syntax.Grammar

open StaticStyle.Syntax.Parser

/-- The words that are never identifiers. -/
def reserved : List String :=
  ["break", "case", "catch", "class", "const", "continue", "debugger", "default", "delete", "do",
   "else", "enum", "export", "extends", "false", "finally", "for", "function", "if", "import",
   "in", "instanceof", "new", "null", "return", "super", "switch", "this", "throw", "true", "try",
   "typeof", "var", "void", "while", "with"]

/-- Whether a word is an identifier in a context. -/
def isIdentifier (ctx : Context) (name : String) : Bool :=
  !reserved.contains name && name != "await" && !(name == "yield" && ctx.yields)

/-- Whether a token is an identifier. -/
def isIdentifierToken (ctx : Context) : Token → Bool
  | .word name _ => isIdentifier ctx name
  | _ => false

/-- Whether the next token is an identifier. -/
def atIdentifier : Parser Bool := return isIdentifierToken (← read) (← token)

/-- Any word, reserved or not. -/
def anyWord : Parser String := do
  match ← token with
  | .word name _ => advance; return name
  | _ => failure

/-- An identifier. -/
def identifier : Parser String := do
  require (← atIdentifier)
  anyWord

/-- An identifier that is looked up. -/
def reference : Parser Tree := do
  let start ← position
  node start (.reference (← identifier)) []

/-- An identifier that is introduced. -/
def binding : Parser Tree := do
  let start ← position
  node start (.binding (← identifier)) []

/-- A word that is looked up in no scope. -/
def name : Parser Tree := do
  let start ← position
  node start (.name (← anyWord)) []

/-- A string as a node. -/
def stringNode : Parser Tree := do
  let start ← position
  match ← token with
  | .string value => advance; node start (.string value) []
  | _ => failure

/-- The value of a string. -/
def stringValue : Parser String := do
  match ← token with
  | .string value => advance; return value
  | _ => failure

/-- A word or a string, as the name of something a module exports. -/
def moduleName : Parser Tree := name <|> stringNode

/-- A member name after a point. -/
def memberName : Parser Tree := do
  let start ← position
  match ← token with
  | .privateName text => advance; node start (.privateName text) []
  | _ => name

/-- The key of a member, and whether it is computed. -/
def key (self : Rules) : Parser (Bool × Tree) := do
  let start ← position
  match ← token with
  | .string value => advance; return (false, ← node start (.string value) [])
  | .number literal => advance; return (false, ← node start (.number literal) [])
  | .bigint literal => advance; return (false, ← node start (.bigint literal) [])
  | .privateName text => advance; return (false, ← node start (.privateName text) [])
  | .mark "[" =>
      advance
      let e ← allowingIn (self (.assignment false))
      expect "]"
      return (true, e)
  | _ => return (false, ← name)

/-- Whether a token can start the key of a member. -/
def startsKey : Token → Bool
  | .word .. | .string _ | .number _ | .bigint _ | .privateName _ => true
  | .mark text => text == "["
  | _ => false

/-- The texts of a template and the items between them.  Only in a tagged template
may a text hold an escape that means nothing. -/
def templateParts (item : Parser Tree) (tagged : Bool) : Parser (List String × List Tree) := do
  let text : Parser (String × Bool) := do
    match ← token with
    | .template cooked raw final =>
        require (tagged || cooked.isSome)
        advance
        return (cooked.getD raw, final)
    | _ => failure
  let (first, final) ← text
  let step : List String × List Tree × Bool → Parser (Option (List String × List Tree × Bool)) :=
    fun (texts, items, final) => do
      if final then return none
      let e ← item
      require (← atMark "\x7d")
      modify fun c => c.rescan (scanTemplate '}' (c.here.drop 1))
      let (next, final) ← text
      return some (next :: texts, e :: items, final)
  let (texts, items, _) ← extend step ([first], [], final)
  return (texts.reverse, items.reverse)

/-- Words in front of a member or a parameter, taken one at a time as long as
`continues` says of the word and the token after it that the word is one. -/
def modifiers (words : List String)
    (continues : (word : String) → (next : Token) → (newline : Bool) → Bool) :
    Parser (List String) :=
  many do
    match ← token with
    | .word w false =>
        let (next, newline) ← peek
        if words.contains w && continues w next newline then
          advance
          return some w
        else return none
    | _ => return none

end StaticStyle.Syntax.Grammar
