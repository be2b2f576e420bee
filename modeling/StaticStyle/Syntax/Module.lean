import StaticStyle.Syntax.Grammar.Modules

/-!
# Modules

`parseModule` reads the tree of a whole text.  It ties the knot of the grammar:
`rules n` are parsers for the nonterminals that nest at most `n` deep, each rule
taking `rules n` for those it refers to at depth `n + 1`.  No text nests deeper
than a fixed number of rules for each of its characters, so the bound that
`parseModule` takes is never met before the text ends.
-/

namespace StaticStyle.Syntax

open StaticStyle.Text (Span byteLength)

/-- The body of each rule, given parsers for the rules it refers to. -/
def Grammar.body (self : Rules) : Rules
  | .expression => Grammar.expressionRule self
  | .assignment inCondition => Grammar.assignmentRule self inCondition
  | .unary => Grammar.unaryRule self
  | .callee => Grammar.calleeRule self
  | .leftHandSide => Grammar.leftHandSideRule self
  | .statement => Grammar.statementRule self
  | .item => Grammar.itemRule self
  | .type => Grammar.typeRule self
  | .pattern => Grammar.patternRule self
  | .element => Grammar.elementRule self

/-- Parsers for the nonterminals that nest at most to a depth. -/
def Grammar.rules : (depth : Nat) → Rules
  | 0 => fun _ => failure
  | depth + 1 => Grammar.body (rules depth)
termination_by structural depth => depth

/-- The depth of rules that a text of some length may need. -/
def Grammar.depthFor (length : Nat) : Nat := 16 * (length + 4)

/-- The text after a first line that names its interpreter, and its offset. -/
def dropInterpreter (s : List Char) : Nat × List Char :=
  match s with
  | '#' :: '!' :: _ =>
      let (line, rest) := s.span fun c => !isLineBreak c
      (byteLength line, rest)
  | _ => (0, s)

/-- Whether a tree holds a shorthand default that belongs to no target. -/
def hasLooseDefault (t : Tree) : Bool := t.any fun t => t.kind == .coverDefault

/-- The tree of a text, if it is a module of the language. -/
def parseModule (language : Language) (text : List Char) : Option Tree := do
  let (offset, rest) := dropInterpreter text
  let self := Grammar.rules (Grammar.depthFor text.length)
  let items : Parser (List Tree) := Parser.many do
    if (← Parser.token) == .endOfText then return none
    else return some (← self .item)
  let context : Context := { language, bound := text.length + 2, ambient := language.ambient }
  let (ts, _) ← items context (Cursor.at offset rest)
  let t : Tree := .node .program ⟨0, byteLength text⟩ (Grammar.markDirectives ts)
  if hasLooseDefault t then none else return t

end StaticStyle.Syntax
