/-!
# Operators

The operators of expressions with their marks, and how tightly the binary ones
bind.
-/

namespace StaticStyle.Syntax

/-- An operator in front of its operand. -/
inductive UnaryOperator where
  | minus
  | plus
  | not
  | bitNot
  | typeOf
  | void
  | delete
deriving DecidableEq, Repr

/-- An operator between two operands that are both evaluated. -/
inductive BinaryOperator where
  | equal
  | notEqual
  | strictEqual
  | strictNotEqual
  | less
  | lessEqual
  | greater
  | greaterEqual
  | shiftLeft
  | shiftRight
  | shiftRightUnsigned
  | add
  | sub
  | mul
  | div
  | rem
  | exp
  | bitOr
  | bitXor
  | bitAnd
  | elementOf
  | instanceOf
deriving DecidableEq, Repr

/-- An operator that may leave its second operand alone. -/
inductive LogicalOperator where
  | and
  | or
  | coalesce
deriving DecidableEq, Repr

/-- An operator between two operands. -/
inductive InfixOperator where
  | binary (op : BinaryOperator)
  | logical (op : LogicalOperator)
deriving DecidableEq, Repr

/-- The unary operator that a mark or a keyword stands for. -/
def UnaryOperator.ofText? : String → Option UnaryOperator
  | "-" => some .minus
  | "+" => some .plus
  | "!" => some .not
  | "~" => some .bitNot
  | "typeof" => some .typeOf
  | "void" => some .void
  | "delete" => some .delete
  | _ => none

/-- The infix operator that a mark or a keyword stands for. -/
def InfixOperator.ofText? : String → Option InfixOperator
  | "==" => some (.binary .equal)
  | "!=" => some (.binary .notEqual)
  | "===" => some (.binary .strictEqual)
  | "!==" => some (.binary .strictNotEqual)
  | "<" => some (.binary .less)
  | "<=" => some (.binary .lessEqual)
  | ">" => some (.binary .greater)
  | ">=" => some (.binary .greaterEqual)
  | "<<" => some (.binary .shiftLeft)
  | ">>" => some (.binary .shiftRight)
  | ">>>" => some (.binary .shiftRightUnsigned)
  | "+" => some (.binary .add)
  | "-" => some (.binary .sub)
  | "*" => some (.binary .mul)
  | "/" => some (.binary .div)
  | "%" => some (.binary .rem)
  | "**" => some (.binary .exp)
  | "|" => some (.binary .bitOr)
  | "^" => some (.binary .bitXor)
  | "&" => some (.binary .bitAnd)
  | "in" => some (.binary .elementOf)
  | "instanceof" => some (.binary .instanceOf)
  | "&&" => some (.logical .and)
  | "||" => some (.logical .or)
  | "??" => some (.logical .coalesce)
  | _ => none

/-- How tightly an infix operator binds. -/
def InfixOperator.precedence : InfixOperator → Nat
  | .logical .coalesce => 1
  | .logical .or => 1
  | .logical .and => 2
  | .binary .bitOr => 3
  | .binary .bitXor => 4
  | .binary .bitAnd => 5
  | .binary .equal | .binary .notEqual | .binary .strictEqual | .binary .strictNotEqual => 6
  | .binary .less | .binary .lessEqual | .binary .greater | .binary .greaterEqual
  | .binary .elementOf | .binary .instanceOf => 7
  | .binary .shiftLeft | .binary .shiftRight | .binary .shiftRightUnsigned => 8
  | .binary .add | .binary .sub => 9
  | .binary .mul | .binary .div | .binary .rem => 10
  | .binary .exp => 11

/-- The precedence of the operators that compare, which `as` and `satisfies` share. -/
def comparePrecedence : Nat := 7

/-- Whether the operator groups to the right. -/
def InfixOperator.isRightAssociative (op : InfixOperator) : Bool := op == .binary .exp

/-- The marks of assignments that also compute. -/
def compoundAssignments : List String :=
  ["+=", "-=", "*=", "/=", "%=", "**=", "<<=", ">>=", ">>>=", "&=", "|=", "^=", "&&=", "||=", "??="]

end StaticStyle.Syntax
