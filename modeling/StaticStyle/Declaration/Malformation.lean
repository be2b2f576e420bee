import StaticStyle.Syntax.Operator

/-!
# Malformed declarations

Why a text is no style declaration.  Reading may fail on the text itself, on a
form that a declaration may not use, or on what its evaluation comes to.  Each
cause has one constructor, and `Malformation.message` is the only place where
its words stand.

A word in angle brackets stands for a cause that is not told in more detail.
-/

namespace StaticStyle

open StaticStyle.Syntax (UnaryOperator BinaryOperator)

/-- Why a text is no style declaration. -/
inductive Malformation where
  /-- The text is no program. -/
  | unparsable
  /-- The text is not one expression. -/
  | notOneExpression
  -- functions of a theme
  | asyncTheme
  | themeArity
  | themeRest
  | themeComputedKey
  | themeKey
  | themeNestedPattern
  | themePattern
  | themeReturnsNothing
  | themeBody
  -- forms that are not allowed
  | arraySpread
  | methodInObject
  | propertyKey
  | unaryOperator (op : UnaryOperator)
  | binaryOperator (op : BinaryOperator)
  | call
  | innerFunction
  | otherForm
  -- limits
  | tooDeep
  | timedOut
  -- evaluation
  /-- A value that is no object is spread in an object. -/
  | spreadOfOther
  /-- A property is read of a value that has none; `value` is its text. -/
  | propertyOfNothing (key value : String)
  /-- The initial value of a constant refers to the constant. -/
  | circular (name : String)
  /-- A name has no known value. -/
  | unresolved (name : String)
  -- results
  /-- The value is no object; `type` is what it is. -/
  | notAnObject (type : String)
  /-- The value under a key is none that a style can hold. -/
  | unfitValue (key value : String)
deriving DecidableEq, Repr

/-- How many levels of an expression may nest. -/
def maxNesting : Nat := 128

namespace Malformation

/-- The name of a unary operator in messages. -/
def unaryName : UnaryOperator → String
  | .minus => "UnaryNegation"
  | .plus => "UnaryPlus"
  | .not => "LogicalNot"
  | .bitNot => "BitwiseNot"
  | .typeOf => "Typeof"
  | .void => "Void"
  | .delete => "Delete"

/-- The name of a binary operator in messages. -/
def binaryName : BinaryOperator → String
  | .equal => "Equality"
  | .notEqual => "Inequality"
  | .strictEqual => "StrictEquality"
  | .strictNotEqual => "StrictInequality"
  | .less => "LessThan"
  | .lessEqual => "LessEqualThan"
  | .greater => "GreaterThan"
  | .greaterEqual => "GreaterEqualThan"
  | .shiftLeft => "ShiftLeft"
  | .shiftRight => "ShiftRight"
  | .shiftRightUnsigned => "ShiftRightZeroFill"
  | .add => "Addition"
  | .sub => "Subtraction"
  | .mul => "Multiplication"
  | .div => "Division"
  | .rem => "Remainder"
  | .exp => "Exponential"
  | .bitOr => "BitwiseOR"
  | .bitXor => "BitwiseXOR"
  | .bitAnd => "BitwiseAnd"
  | .elementOf => "In"
  | .instanceOf => "Instanceof"

/-- The cause in words. -/
def message : Malformation → String
  | .unparsable => "<syntax>"
  | .notOneExpression => "expected a single expression"
  | .asyncTheme => "theme functions cannot be async"
  | .themeArity => "theme functions take exactly one parameter"
  | .themeRest => "rest elements are not supported in theme parameters"
  | .themeComputedKey => "computed keys are not supported in theme parameters"
  | .themeKey => "unsupported theme parameter key"
  | .themeNestedPattern => "nested theme parameter patterns are not supported"
  | .themePattern => "unsupported theme parameter pattern"
  | .themeReturnsNothing => "theme function returns nothing"
  | .themeBody => "theme function body must be a single returned object"
  | .arraySpread => "array spread is not supported"
  | .methodInObject => "methods and accessors are not allowed"
  | .propertyKey => "unsupported property key"
  | .unaryOperator op => "operator " ++ unaryName op ++ " is not allowed"
  | .binaryOperator op => "operator " ++ binaryName op ++ " is not allowed"
  | .call => "function calls are not allowed in style declarations"
  | .innerFunction => "functions are only allowed as the top-level theme function"
  | .otherForm => "unsupported expression in style declaration"
  | .tooDeep => "expression nests deeper than " ++ toString maxNesting ++ " levels"
  | .timedOut => "evaluation timed out"
  | .spreadOfOther => "only objects can be spread"
  | .propertyOfNothing key value => "cannot read property `" ++ key ++ "` of " ++ value
  | .circular name => "`" ++ name ++ "` is defined in terms of itself"
  | .unresolved name => "`" ++ name ++ "` cannot be resolved at build time"
  | .notAnObject type => "style declaration must be an object, got " ++ type
  | .unfitValue key value =>
      "value of `" ++ key ++ "` must be a string, number or nested object, got " ++ value

end Malformation

end StaticStyle
