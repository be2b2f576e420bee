import StaticStyle.Number.Notation
import StaticStyle.Ordered

/-!
# JSON values

Values of the data format that configurations and themes are written in.  The
members of an object keep their order, and a reader keeps them all, a repeated
key included.  Whoever uses an object decides what a repeated key means:
`distinct` keeps the last value at the place of the first, which is the rule for
themes, and a configuration refuses it.

A number is an integer when it is written as one and fits into 64 bits, with or
without a sign.  Otherwise it is a binary64 number.
-/

namespace StaticStyle

/-- A JSON number. -/
inductive Json.Numeral where
  /-- A number written without fraction and exponent that fits into 64 bits. -/
  | integer (n : Int)
  /-- Any other number. -/
  | real (x : Float)
deriving Repr

/-- A JSON value. -/
inductive Json where
  | null
  | bool (b : Bool)
  | number (n : Json.Numeral)
  | string (s : String)
  | array (items : List Json)
  | object (members : List (String × Json))
deriving Repr, Inhabited

namespace Json

/-- The number as a binary64 number, integers rounded to the nearest one. -/
def Numeral.toFloat : Numeral → Float
  | .integer n =>
      let x := Number.nearest n.natAbs 1
      if n < 0 then -x else x
  | .real x => x

mutual

/-- The value with one member for each key of each object in it: the last value,
at the place of the first. -/
def distinct : Json → Json
  | .array items => .array (distinctItems items)
  | .object members => .object (distinctMembers members [])
  | v => v

/-- `distinct` on each item of an array. -/
def distinctItems : List Json → List Json
  | [] => []
  | v :: rest => distinct v :: distinctItems rest

/-- `distinct` on each member of an object, put after the members `done`. -/
def distinctMembers : Table Json → (done : Table Json) → Table Json
  | [], done => done
  | (k, v) :: rest, done => distinctMembers rest (Table.put k (distinct v) done)

end

end Json

end StaticStyle
