import StaticStyle.Declaration.Malformation
import StaticStyle.Expression.Basic
import StaticStyle.Json.Value
import StaticStyle.Style
import StaticStyle.Text.Blank

/-!
# Values

What expressions evaluate to, and the conversions between the types of values.

Arrays and objects take part in operators through their text: an array is its
items with commas between them, an object is always the same text.  `binary`
says for each operator what it does with operands of any type.

`Value.toStyle` reads an object as a style.
-/

namespace StaticStyle

/-- The value of an expression. -/
inductive Value where
  | undefined
  | null
  | boolean (b : Bool)
  | number (x : Float)
  | string (s : String)
  | array (items : List Value)
  /-- Entries in order; of two with one key the later counts. -/
  | object (entries : List (String × Value))
deriving Repr, Inhabited

namespace Value

/-! ## Themes -/

mutual

/-- A value of the data format as a value of expressions. -/
def ofJson : Json → Value
  | .null => .null
  | .bool b => .boolean b
  | .number n => .number n.toFloat
  | .string s => .string s
  | .array items => .array (ofItems items)
  | .object members => .object (ofMembers members)

/-- `ofJson` on each item of an array. -/
def ofItems : List Json → List Value
  | [] => []
  | v :: rest => ofJson v :: ofItems rest

/-- `ofJson` on each member of an object. -/
def ofMembers : List (String × Json) → List (String × Value)
  | [] => []
  | (k, v) :: rest => (k, ofJson v) :: ofMembers rest

end

/-! ## Conversions -/

/-- Whether a value stands for the lack of one. -/
def isNullish : Value → Bool
  | .undefined => true
  | .null => true
  | _ => false

/-- Whether a value has parts. -/
def isComposite : Value → Bool
  | .array _ => true
  | .object _ => true
  | _ => false

/-- The name of the type of a value. -/
def typeName : Value → String
  | .undefined => "undefined"
  | .boolean _ => "boolean"
  | .number _ => "number"
  | .string _ => "string"
  | .null => "object"
  | .array _ => "object"
  | .object _ => "object"

/-- Whether a value counts as true in a condition. -/
def truthy : Value → Bool
  | .undefined => false
  | .null => false
  | .boolean b => b
  | .number x => x != 0.0 && !x.isNaN
  | .string s => s != ""
  | .array _ => true
  | .object _ => true

mutual

/-- The text of a value. -/
def toText : Value → String
  | .undefined => "undefined"
  | .null => "null"
  | .boolean b => if b then "true" else "false"
  | .number x => Number.render x
  | .string s => s
  | .array items => ",".intercalate (itemTexts items)
  | .object _ => "[object Object]"

/-- The texts of the items of an array, those of missing values being empty. -/
def itemTexts : List Value → List String
  | [] => []
  | v :: rest => (if v.isNullish then "" else toText v) :: itemTexts rest

end

/-- The number that a text stands for: zero when it is blank, and no number when it
is none. -/
def numberOfText (s : String) : Float :=
  match Text.trim s.toList with
  | [] => 0.0
  | trimmed => (Number.parse trimmed).getD (0.0 / 0.0)

/-- The value as a number. -/
def toNumber : Value → Float
  | .undefined => 0.0 / 0.0
  | .null => 0.0
  | .boolean b => if b then 1.0 else 0.0
  | .number x => x
  | .string s => numberOfText s
  | v => numberOfText v.toText

/-! ## Comparison -/

/-- Equality of values of one type.  Arrays and objects equal nothing. -/
def strictEqual : Value → Value → Bool
  | .undefined, .undefined => true
  | .null, .null => true
  | .boolean a, .boolean b => a == b
  | .number a, .number b => a == b
  | .string a, .string b => a == b
  | _, _ => false

/-- Equality that converts to numbers where a boolean, or a number and a string,
take part. -/
def looseEqual (a b : Value) : Bool :=
  if a.isNullish || b.isNullish then a.isNullish && b.isNullish
  else match a, b with
    | .number _, .string _ => a.toNumber == b.toNumber
    | .string _, .number _ => a.toNumber == b.toNumber
    | .boolean _, _ => a.toNumber == b.toNumber
    | _, .boolean _ => a.toNumber == b.toNumber
    | _, _ => strictEqual a b

/-- The order of two numbers, if they have one. -/
def orderNumbers (a b : Float) : Option Ordering :=
  if a < b then some .lt
  else if a == b then some .eq
  else if b < a then some .gt
  else none

/-- The order of two values: by code points for two strings, by number otherwise. -/
def order : Value → Value → Option Ordering
  | .string a, .string b => some (compare a b)
  | a, b => orderNumbers a.toNumber b.toNumber

/-! ## Operators -/

/-- Whether an operand makes an addition join texts. -/
def joinsTexts : Value → Bool
  | .string _ => true
  | v => v.isComposite

/-- An operator in front of a value. -/
def unary (op : Expression.Prefix) (v : Value) : Value :=
  match op with
  | .minus => .number (-v.toNumber)
  | .plus => .number v.toNumber
  | .not => .boolean !v.truthy
  | .typeOf => .string v.typeName

/-- An operator between two values. -/
def binary (op : Expression.Infix) (a b : Value) : Value :=
  match op with
  | .add =>
      if a.joinsTexts || b.joinsTexts then .string (a.toText ++ b.toText)
      else .number (a.toNumber + b.toNumber)
  | .sub => .number (a.toNumber - b.toNumber)
  | .mul => .number (a.toNumber * b.toNumber)
  | .div => .number (a.toNumber / b.toNumber)
  | .rem => .number (Number.remainder a.toNumber b.toNumber)
  | .exp => .number (a.toNumber.pow b.toNumber)
  | .strictEqual => .boolean (strictEqual a b)
  | .strictDiffer => .boolean !strictEqual a b
  | .looseEqual => .boolean (looseEqual a b)
  | .looseDiffer => .boolean !looseEqual a b
  | .less => .boolean ((order a b).any (· == .lt))
  | .lessEqual => .boolean ((order a b).any (· != .gt))
  | .greater => .boolean ((order a b).any (· == .gt))
  | .greaterEqual => .boolean ((order a b).any (· != .lt))

/-- Whether a logical operator ends with its first operand. -/
def settles (op : Syntax.LogicalOperator) (v : Value) : Bool :=
  match op with
  | .and => !v.truthy
  | .or => v.truthy
  | .coalesce => !v.isNullish

/-! ## Properties -/

/-- A text as the position of an item: decimal digits, with a plus sign or without. -/
def position? (key : String) : Option Nat :=
  let digits := match key.toList with
    | '+' :: rest => rest
    | digits => digits
  if digits.isEmpty || !digits.all Char.isDigit then none
  else some (Number.natOfDigits 10 digits)

/-- A property of a value.  One that a value does not have is undefined; reading
one of a missing value is an error. -/
def property (v : Value) (key : String) : Except Malformation Value :=
  match v with
  | .undefined => .error (.propertyOfNothing key v.toText)
  | .null => .error (.propertyOfNothing key v.toText)
  | .object entries => .ok ((Table.get? key entries.reverse).getD .undefined)
  | .array items =>
      if key = "length" then .ok (.number (Float.ofNat items.length))
      else .ok (((position? key).bind fun i => items[i]?).getD .undefined)
  | .string s =>
      if key = "length" then .ok (.number (Float.ofNat s.length)) else .ok .undefined
  | _ => .ok .undefined

/-! ## Styles -/

mutual

/-- A value under a key of a style, in front of the rest of the style. -/
def toEntry (key : String) (rest : Except Malformation Style) : Value →
    Except Malformation Style
  | .string s => rest.map (.leaf key (.text s))
  | .number x => rest.map (.leaf key (.number x))
  | .object entries => do
      let inner ← toEntries entries
      return .block key inner (← rest)
  | v => .error (.unfitValue key v.toText)

/-- The entries of an object as a style. -/
def toEntries : List (String × Value) → Except Malformation Style
  | [] => .ok .nil
  | (key, v) :: entries => toEntry key (toEntries entries) v

end

/-- An object as a style.  Texts and numbers are declarations, objects are blocks,
and the first value of any other type is an error. -/
def toStyle : Value → Except Malformation Style
  | .object entries => toEntries entries
  | v => .error (.notAnObject v.typeName)

/-! ## Tests -/

example : position? "+01" = some 1 ∧ position? "+" = none ∧ position? "-1" = none := by decide

end Value

end StaticStyle
