import StaticStyle.Ordered
import StaticStyle.Syntax.Operator

/-!
# Expressions

The expressions that a style declaration is made of.  They compose literals and
names, and nothing in them can have an effect: there are no calls, no
assignments and no functions.  A node is one level of nesting and one step of
evaluation.
-/

namespace StaticStyle

namespace Expression

/-- An operator in front of its operand. -/
inductive Prefix where
  | minus
  | plus
  | not
  | typeOf
deriving DecidableEq, Repr

/-- An operator between two operands that are both evaluated. -/
inductive Infix where
  | add
  | sub
  | mul
  | div
  | rem
  | exp
  | looseEqual
  | looseDiffer
  | strictEqual
  | strictDiffer
  | less
  | lessEqual
  | greater
  | greaterEqual
deriving DecidableEq, Repr

/-- A key of an object or of one of its members: written as it is, or computed. -/
inductive Key (ε : Type) where
  | fixed (name : String)
  | computed (e : ε)
deriving Repr

/-- A part of an object. -/
inductive Part (ε : Type) where
  /-- A value under a key. -/
  | entry (key : Key ε) (value : ε)
  /-- All entries of another object. -/
  | spread (e : ε)
deriving Repr

end Expression

/-- An expression of a style declaration. -/
inductive Expression where
  | undefined
  | null
  | boolean (b : Bool)
  | number (x : Float)
  | string (s : String)
  /-- Texts with expressions between them. -/
  | template (texts : List String) (parts : List Expression)
  | array (items : List Expression)
  | object (parts : List (Expression.Part Expression))
  | identifier (name : String)
  | member (owner : Expression) (key : Expression.Key Expression)
  | conditional (test whenTrue whenFalse : Expression)
  | unary (op : Expression.Prefix) (operand : Expression)
  | binary (op : Expression.Infix) (left right : Expression)
  | logical (op : Syntax.LogicalOperator) (left right : Expression)
deriving Repr, Inhabited

/-- The constants at the top of a module with their initial values. -/
abbrev Constants := Table Expression

end StaticStyle
