import StaticStyle.Syntax.Token
import StaticStyle.Syntax.Tree

/-!
# Parsing

A parser reads tokens from a cursor and gives a result with the cursor after it,
or fails.  The cursor holds the next token and the text around it, so a parser
that finds the wrong token can scan the same text again under another reading.

The rules of the grammar are not mutually recursive functions.  A nonterminal is
a value of `Rule`, and the body of each rule takes a parser for every
nonterminal as an argument, to be used wherever the rule refers to one.  The
knot is tied once, in the module that puts the rules together, by recursion on
the depth of nesting.

Lists are read by `many` and its relatives, which stop after as many items as
the text has characters.
-/

namespace StaticStyle.Syntax

open StaticStyle.Text (Span byteLength)

/-! ## The cursor -/

/-- A place in a text between two tokens. -/
structure Cursor where
  /-- The offset where the last token ended. -/
  last : Nat
  /-- The text from there on. -/
  before : List Char
  /-- Whether a line break stands before the next token. -/
  newline : Bool
  /-- The offset where the next token starts. -/
  start : Nat
  /-- The text from there on. -/
  here : List Char
  /-- The next token. -/
  token : Token
  /-- The offset where the next token ends. -/
  stop : Nat
  /-- The text from there on. -/
  after : List Char

/-- The cursor at the front of a text that starts at an offset. -/
def Cursor.at (last : Nat) (s : List Char) : Cursor :=
  match skipGap .between false last s with
  | none => ⟨last, s, false, last, s, .invalid, last, s⟩
  | some (newline, start, here) =>
      let t := scanToken here
      ⟨last, s, newline, start, here, t.token, start + byteLength t.lexeme, t.rest⟩

/-- The cursor after its token. -/
def Cursor.next (c : Cursor) : Cursor := Cursor.at c.stop c.after

/-- The cursor with its token scanned in another way. -/
def Cursor.rescan (c : Cursor) (t : Scan) : Cursor :=
  { c with token := t.token, stop := c.start + byteLength t.lexeme, after := t.rest }

/-! ## Languages and contexts -/

/-- The language a text is written in. -/
structure Language where
  /-- Whether there are types. -/
  typed : Bool
  /-- Whether there are elements. -/
  elements : Bool
  /-- Whether a text only declares what is defined elsewhere. -/
  ambient : Bool
deriving DecidableEq, Repr

/-- What the surroundings allow. -/
structure Context where
  /-- The language of the text. -/
  language : Language
  /-- More than the number of characters of the text. -/
  bound : Nat
  /-- Whether `in` is an operator. -/
  allowIn : Bool := true
  /-- Whether `await` is an operator. -/
  awaits : Bool := true
  /-- Whether `yield` is an operator. -/
  yields : Bool := false
  /-- Whether there is a function to return from. -/
  returns : Bool := false
  /-- Whether declarations have no bodies and values. -/
  ambient : Bool := false
  /-- Whether `extends` may follow a type as its condition. -/
  allowConditional : Bool := true
  /-- Whether an index after a decorator belongs to what follows it. -/
  decorating : Bool := false

/-- A parser. -/
abbrev Parser := ReaderT Context (StateT Cursor Option)

/-- A nonterminal of the grammar. -/
inductive Rule where
  /-- Expressions separated by commas. -/
  | expression
  /-- One expression.  Between the parts of a condition an arrow function with a
  result type has to be followed by a colon. -/
  | assignment (inCondition : Bool)
  /-- An expression with at most unary operators. -/
  | unary
  /-- What may stand after `new`: an expression without calls. -/
  | callee
  /-- An expression that may be called. -/
  | leftHandSide
  /-- A statement that is no declaration of a module. -/
  | statement
  /-- An item of a module. -/
  | item
  /-- A type. -/
  | type
  /-- A pattern of bindings. -/
  | pattern
  /-- An element, given the offset where it starts. -/
  | element
deriving DecidableEq, Repr

/-- A parser for every nonterminal. -/
abbrev Rules := Rule → Parser Tree

namespace Parser

/-! ## Tokens -/

/-- The next token. -/
def token : Parser Token := return (← get).token

/-- The offset of the next token. -/
def position : Parser Nat := return (← get).start

/-- The offset where the last token ended. -/
def lastStop : Parser Nat := return (← get).last

/-- Whether a line break stands before the next token. -/
def afterNewline : Parser Bool := return (← get).newline

/-- Goes past the next token. -/
def advance : Parser Unit := modify Cursor.next

/-- Fails unless a condition holds. -/
def require (b : Bool) : Parser Unit := if b then pure () else failure

/-- Whether the next token is a mark. -/
def atMark (mark : String) : Parser Bool := return (← token) == .mark mark

/-- Whether the next token is a keyword. -/
def atWord (word : String) : Parser Bool := return (← token) == .word word false

/-- Goes past a mark if it comes next, and says whether it did. -/
def eat (mark : String) : Parser Bool := do
  if ← atMark mark then advance; return true
  else return false

/-- Goes past a keyword if it comes next, and says whether it did. -/
def eatWord (word : String) : Parser Bool := do
  if ← atWord word then advance; return true
  else return false

/-- Goes past a mark that has to come next. -/
def expect (mark : String) : Parser Unit := do require (← eat mark)

/-- Goes past a keyword that has to come next. -/
def expectWord (word : String) : Parser Unit := do require (← eatWord word)

/-- The token after the next one, and whether a line break stands before it. -/
def peek : Parser (Token × Bool) := do
  let c := (← get).next
  return (c.token, c.newline)

/-- The result of a parser that is then undone. -/
def look {α : Type} (p : Parser α) : Parser α := do
  let c ← get
  let a ← p
  set c
  return a

/-- Tries a parser, and does nothing if it fails. -/
def attempt {α : Type} (p : Parser α) : Parser (Option α) :=
  (some <$> p) <|> pure none

/-- Whether a parser succeeds here, without moving. -/
def lookAhead {α : Type} (p : Parser α) : Parser Bool := do
  return (← attempt (look p)).isSome

/-! ## Nodes -/

/-- A node from an offset to the end of the last token. -/
def node (start : Nat) (kind : Kind) (children : List Tree) : Parser Tree :=
  return .node kind ⟨start, ← lastStop⟩ children

/-- A part that is left out. -/
def absent : Parser Tree := return .node .absent ⟨← lastStop, ← lastStop⟩ []

/-- Several parts in a row. -/
def group (children : List Tree) : Parser Tree :=
  match children with
  | [] => return .node .group ⟨← lastStop, ← lastStop⟩ []
  | first :: _ => node first.span.start .group children

/-! ## Lists -/

/-- Repeats a step that gives an item, or nothing to stop, at most `fuel` times. -/
def repeatAtMost {α : Type} (step : Parser (Option α)) :
    (fuel : Nat) → (done : List α) → Parser (List α)
  | 0, _ => failure
  | fuel + 1, done => do
      match ← step with
      | some a => repeatAtMost step fuel (a :: done)
      | none => return done.reverse
termination_by structural fuel => fuel

/-- Repeats a step that gives an item, or nothing to stop. -/
def many {α : Type} (step : Parser (Option α)) : Parser (List α) := do
  repeatAtMost step (← read).bound []

/-- Folds a step that extends a value, or gives nothing to stop, at most `fuel`
times. -/
def extendAtMost {α : Type} (step : α → Parser (Option α)) : (fuel : Nat) → α → Parser α
  | 0, _ => failure
  | fuel + 1, a => do
      match ← step a with
      | some b => extendAtMost step fuel b
      | none => return a
termination_by structural fuel => fuel

/-- Folds a step that extends a value, or gives nothing to stop. -/
def extend {α : Type} (step : α → Parser (Option α)) (a : α) : Parser α := do
  extendAtMost step (← read).bound a

/-- Items up to a closing mark, which is taken too. -/
def manyUntil {α : Type} (closing : String) (item : Parser α) : Parser (List α) :=
  many do
    if ← eat closing then return none
    else return some (← item)

/-- Items separated by commas up to a closing mark, which is taken too.  A comma
may stand before the closing mark. -/
def commaList {α : Type} (closing : String) (item : Parser α) : Parser (List α) := do
  let items ← many do
    if ← atMark closing then return none
    else
      let a ← item
      if !(← atMark closing) then expect ","
      return some a
  expect closing
  return items

/-- One item or more, with a mark between them. -/
def separated {α : Type} (mark : String) (item : Parser α) : Parser (List α) := do
  let first ← item
  let more ← many do
    if ← eat mark then return some (← item)
    else return none
  return first :: more

/-! ## The ends of statements -/

/-- Whether a statement may end here without a semicolon. -/
def mayEnd : Parser Bool := do
  return (← token) == .endOfText || (← atMark "\x7d") || (← afterNewline)

/-- The end of a statement: a semicolon, or nothing where none is needed. -/
def semicolon : Parser Unit := do
  if ← eat ";" then return
  require (← mayEnd)

/-! ## Contexts -/

/-- Runs a parser in a changed context. -/
def inContext {α : Type} (change : Context → Context) (p : Parser α) : Parser α :=
  fun ctx => p (change ctx)

/-- Runs a parser where `in` is an operator. -/
def allowingIn {α : Type} (p : Parser α) : Parser α :=
  inContext (fun c => { c with allowIn := true, decorating := false }) p

/-- Runs a parser where nothing of what surrounds it limits types. -/
def freshType {α : Type} (p : Parser α) : Parser α :=
  inContext (fun c => { c with allowConditional := true }) p

end Parser

end StaticStyle.Syntax
