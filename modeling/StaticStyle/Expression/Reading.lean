import StaticStyle.Declaration.Malformation
import StaticStyle.Expression.Basic
import StaticStyle.Syntax.Token
import StaticStyle.Syntax.Tree

/-!
# From syntax trees to expressions

`Expression.ofTree` reads the tree of an expression.  Parentheses, casts and
marks `!` leave no trace and count as no level.  Whatever is not composed of
literals and names is refused, and so is a tree that nests more than
`maxNesting` levels deep.

Each level is one step of `ofNode`, which takes the reader for the levels
below as an argument; `ofTreeWithin` ties the knot by recursion on the number of
levels that are left.
-/

namespace StaticStyle

namespace Expression

open StaticStyle.Syntax (Tree Kind UnaryOperator BinaryOperator)

/-! ## Operators -/

/-- The operator of an expression for one of the syntax. -/
def Prefix.ofSyntax : UnaryOperator → Except Malformation Prefix
  | .minus => .ok .minus
  | .plus => .ok .plus
  | .not => .ok .not
  | .typeOf => .ok .typeOf
  | op => .error (.unaryOperator op)

/-- The operator of an expression for one of the syntax. -/
def Infix.ofSyntax : BinaryOperator → Except Malformation Infix
  | .add => .ok .add
  | .sub => .ok .sub
  | .mul => .ok .mul
  | .div => .ok .div
  | .rem => .ok .rem
  | .exp => .ok .exp
  | .equal => .ok .looseEqual
  | .notEqual => .ok .looseDiffer
  | .strictEqual => .ok .strictEqual
  | .strictNotEqual => .ok .strictDiffer
  | .less => .ok .less
  | .lessEqual => .ok .lessEqual
  | .greater => .ok .greater
  | .greaterEqual => .ok .greaterEqual
  | op => .error (.binaryOperator op)

/-! ## Nodes -/

/-- The text of a key that is not computed. -/
def plainKey? (key : Tree) : Option String :=
  match key.kind with
  | .name text => some text
  | .string s => some s
  | .number literal => some (Number.render (Syntax.numberValue literal))
  | _ => none

/-- A name as an expression.  Three names stand for values. -/
def ofName (name : String) : Expression :=
  if name = "undefined" then .undefined
  else if name = "NaN" then .number (0.0 / 0.0)
  else if name = "Infinity" then .number (1.0 / 0.0)
  else .identifier name

variable (ofInner : Tree → Except Malformation Expression)

/-- An item of an array.  A hole is undefined. -/
def itemOf (item : Tree) : Except Malformation Expression :=
  match item.kind with
  | .spread => .error .arraySpread
  | .elision => .ok .undefined
  | _ => ofInner item

/-- The key of a property. -/
def keyOf (computed : Bool) (key : Tree) : Except Malformation (Key Expression) :=
  if computed then (ofInner key).map .computed
  else match plainKey? key with
    | some name => .ok (.fixed name)
    | none => .error .propertyKey

/-- A part of an object. -/
def partOf (part : Tree) : Except Malformation (Part Expression) :=
  match part with
  | .node (.property .value computed _) _ [key, value] => do
      let key ← keyOf ofInner computed key
      return .entry key (← ofInner value)
  | .node (.property _ _ _) _ _ => .error .methodInObject
  | .node .spread _ [e] => (ofInner e).map .spread
  | _ => .error .otherForm

/-- An expression by its outermost node. -/
def ofNode (e : Tree) : Except Malformation Expression :=
  match e with
  | .node (.string s) _ _ => .ok (.string s)
  | .node (.number literal) _ _ => .ok (.number (Syntax.numberValue literal))
  | .node (.boolean b) _ _ => .ok (.boolean b)
  | .node .null _ _ => .ok .null
  | .node (.reference name) _ _ => .ok (ofName name)
  | .node (.template texts) _ parts => (parts.mapM ofInner).map (.template texts)
  | .node .array _ items => (items.mapM (itemOf ofInner)).map .array
  | .node .object _ parts => (parts.mapM (partOf ofInner)).map .object
  | .node .conditional _ [test, whenTrue, whenFalse] => do
      let test ← ofInner test
      let whenTrue ← ofInner whenTrue
      return .conditional test whenTrue (← ofInner whenFalse)
  | .node (.unary op) _ [operand] => do
      let op ← Prefix.ofSyntax op
      return .unary op (← ofInner operand)
  | .node (.binary op) _ [left, right] => do
      let op ← Infix.ofSyntax op
      let left ← ofInner left
      return .binary op left (← ofInner right)
  | .node (.logical op) _ [left, right] => do
      let left ← ofInner left
      return .logical op left (← ofInner right)
  | .node (.member false) _ [owner, .node (.name key) _ _] => do
      return .member (← ofInner owner) (.fixed key)
  | .node (.index false) _ [owner, key] => do
      let owner ← ofInner owner
      return .member owner (.computed (← ofInner key))
  | .node (.call false) _ _ => .error .call
  | .node .construct _ _ => .error .call
  | .node (.arrow _ _) _ _ => .error .innerFunction
  | .node (.function _ _) _ _ => .error .innerFunction
  | _ => .error .otherForm

/-! ## Trees -/

/-- An expression that nests at most so many levels deep. -/
def ofTreeWithin : (levels : Nat) → Tree → Except Malformation Expression
  | 0, _ => .error .tooDeep
  | levels + 1, e => ofNode (ofTreeWithin levels) e.unwrap

/-- The tree of an expression as an expression. -/
def ofTree (e : Tree) : Except Malformation Expression := ofTreeWithin maxNesting e

end Expression

end StaticStyle
