import StaticStyle.Syntax.Operator
import StaticStyle.Text.Span

/-!
# Syntax trees

The tree of a script.  Every node has a kind, the span of its text and its
children in the order of the text.  A kind carries what the children do not
show: a name, a value, an operator, a flag.  An optional part that is left out
is a node of kind `absent`, so the parts of a node are found by their position.

Names fall into four kinds.  A `reference` is an identifier that is looked up,
in an expression, a type or the name of an element.  A `binding` is one that is
introduced.  A `name` is looked up in no scope: a member, a key, a label.  A
`privateName` is written with `#`.

Parentheses, casts and the mark `!` after an expression are nodes, so a tree
determines its text up to gaps, separators and the way literals are written.
`unwrap` sees through them.
-/

namespace StaticStyle.Syntax

open StaticStyle.Text (Span)

/-- The forms of a member of an object or a class. -/
inductive MemberForm where
  | value
  | method
  | getter
  | setter
deriving DecidableEq, Repr

/-- What a node is. -/
inductive Kind where
  /-- A part that is left out. -/
  | absent
  /-- Several parts in a row. -/
  | group
  -- names
  | reference (name : String)
  | binding (name : String)
  | name (text : String)
  | privateName (text : String)
  -- literals
  | null
  | boolean (value : Bool)
  | number (literal : String)
  | bigint (literal : String)
  | string (value : String)
  | regex (pattern flags : String)
  /-- A template; the children are its interpolations, the texts stand around them. -/
  | template (texts : List String)
  -- expressions
  | this
  | super
  | parenthesized
  | array
  | elision
  | spread
  | object
  /-- Key and value. -/
  | property (form : MemberForm) (computed shorthand : Bool)
  /-- A shorthand key with a default, allowed only where a target is meant. -/
  | coverDefault
  /-- Name, type parameters, parameters, result type and body. -/
  | function (async generator : Bool)
  /-- Type parameters, parameters, result type and body. -/
  | arrow (async expression : Bool)
  | parameters
  /-- Decorators and pattern. -/
  | parameter (modifiers : List String)
  | body
  | directive (value : String)
  | unary (op : UnaryOperator)
  | update (mark : String) (before : Bool)
  | binary (op : BinaryOperator)
  | logical (op : LogicalOperator)
  | privateIn
  | conditional
  | assign (mark : String)
  | sequence
  | yield (delegate : Bool)
  | await
  /-- An object and a name.  `skips` marks a part that is left out where there is no
  object. -/
  | member (skips : Bool)
  /-- An object and an expression. -/
  | index (skips : Bool)
  /-- Callee, type arguments and arguments. -/
  | call (skips : Bool)
  /-- Callee, type arguments and arguments. -/
  | construct
  /-- An expression that ends early where an optional part finds nothing. -/
  | chain
  /-- Tag, type arguments and template. -/
  | taggedTemplate
  | importCall
  | metaProperty (text : String)
  | asType
  | satisfiesType
  | nonNull
  | cast
  | instantiation
  | decorator
  -- patterns
  | objectPattern
  /-- Key and value. -/
  | patternProperty (computed shorthand : Bool)
  | arrayPattern
  | rest
  /-- A pattern and its default. -/
  | withDefault
  /-- A pattern and its type. -/
  | typed (optional definite : Bool)
  -- classes
  /-- Decorators, name, type parameters, base, its type arguments, interfaces and body. -/
  | classDefinition (isAbstract : Bool)
  | classBody
  /-- Decorators, key and function. -/
  | method (form : MemberForm) (computed : Bool) (modifiers : List String)
  /-- Decorators, key, type and value. -/
  | field (computed : Bool) (modifiers : List String)
  | staticBlock
  -- elements
  /-- Opening tag, children and closing tag. -/
  | element
  | openingTag (closed : Bool)
  | closingTag
  | elementAttribute
  | elementName (text : String)
  | elementMember (text : String)
  | elementText (text : String)
  | interpolation
  -- statements
  | program
  | expressionStatement
  | block
  | empty
  | variableList (kind : String)
  /-- Pattern and initial value. -/
  | declarator
  | conditionalStatement
  | whileLoop
  | doWhileLoop
  | forLoop
  | forIn
  | forOf (await : Bool)
  | continueStatement
  | breakStatement
  | returnStatement
  | throwStatement
  | withStatement
  | tryStatement
  | catchClause
  | switchStatement
  | switchCase
  | labeled
  | debugger
  | declare
  -- modules
  /-- The imported names, the source and the attributes. -/
  | importDeclaration (source : String) (typeOnly : Bool)
  /-- The imported name and the local one. -/
  | importName (typeOnly : Bool)
  | importDefault
  | importNamespace
  | importAttributes
  | exportNames (source : Option String) (typeOnly : Bool)
  /-- The local name and the exported one. -/
  | exportName (typeOnly : Bool)
  | exportDeclaration
  | exportDefault
  | exportAll (source : String) (typeOnly : Bool)
  | importEquals (typeOnly : Bool)
  | externalModule (source : String)
  | exportEquals
  | exportNamespace
  -- declarations of types
  | typeAlias
  | interface
  | heritage
  | enumeration (isConst : Bool)
  | enumerationMember
  | moduleBlock (keyword : String)
  -- types
  | typeKeyword (name : String)
  | typeReference
  | qualified
  | typeQuery
  | typeImport
  | typeOperator (name : String)
  | typeArray
  | typeIndexed
  | typeTuple
  | typeElement (named optional rest : Bool)
  | typeUnion
  | typeIntersection
  | typeConditional
  | typeInfer
  | typeParenthesized
  | typeFunction
  | typeConstructor (isAbstract : Bool)
  | typeObject
  | typeMapped (readonlyMark optionalMark : String)
  | typeLiteral
  | typeTemplate (texts : List String)
  | typePredicate (asserts : Bool)
  | typeParameters
  /-- Name, constraint and default. -/
  | typeParameter (modifiers : List String)
  | typeArguments
  | signature (form : String) (optional : Bool) (modifiers : List String)
deriving DecidableEq, Repr

/-- A node of a syntax tree. -/
inductive Tree where
  | node (kind : Kind) (span : Span) (children : List Tree)
deriving Repr

instance : Inhabited Tree := ⟨.node .absent ⟨0, 0⟩ []⟩

namespace Tree

/-- What the node is. -/
def kind : Tree → Kind
  | .node k _ _ => k

/-- The text it covers. -/
def span : Tree → Span
  | .node _ s _ => s

/-- Its parts. -/
def children : Tree → List Tree
  | .node _ _ cs => cs

/-- Whether the node stands for a part that is left out. -/
def isAbsent (t : Tree) : Bool := t.kind == .absent

/-- The expression inside any parentheses, casts and marks `!`. -/
def unwrap : Tree → Tree
  | .node .parenthesized _ (e :: _) => unwrap e
  | .node .asType _ (e :: _) => unwrap e
  | .node .satisfiesType _ (e :: _) => unwrap e
  | .node .nonNull _ (e :: _) => unwrap e
  | t => t

mutual

/-- Whether some node of the tree has a property. -/
def any (p : Tree → Bool) : Tree → Bool
  | .node k s cs => p (.node k s cs) || anyOf p cs

/-- Whether some node of some trees has a property. -/
def anyOf (p : Tree → Bool) : List Tree → Bool
  | [] => false
  | t :: ts => any p t || anyOf p ts

end

end Tree

end StaticStyle.Syntax
