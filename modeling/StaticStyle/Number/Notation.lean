import StaticStyle.Number.Shortest

/-!
# Number notation

How numbers are written in style values, and how they are read from text.

A number is written with its shortest decimal: positionally from `1e-6` up to
`1e21`, outside that with an exponent that carries its sign.  Both zeros are
`0`.

`parse` reads a decimal with an optional sign, fraction and exponent.  A point
needs a digit on at least one side.  The names of the infinities and of the
number that is none are read in any mixture of cases.
-/

namespace StaticStyle.Number

/-! ## Writing -/

/-- The decimal digits of a natural. -/
def digitsOf (n : Nat) : List Char := Nat.toDigits 10 n

/-- The exponents of the first digit that are written positionally, as a
half-open range. -/
def positionalExponents : Int × Int := (-6, 21)

/-- Digits with a point after the first `point` of them, zeros filling the gap. -/
def positional (digits : List Char) (point : Int) : List Char :=
  if point ≤ 0 then '0' :: '.' :: List.replicate (-point).toNat '0' ++ digits
  else
    let whole := point.toNat
    if digits.length ≤ whole then digits ++ List.replicate (whole - digits.length) '0'
    else digits.take whole ++ '.' :: digits.drop whole

/-- Digits with the point after the first of them, and an exponent. -/
def scientific (digits : List Char) (exponent : Int) : List Char :=
  let fraction := if digits.length ≤ 1 then [] else '.' :: digits.drop 1
  let sign := if exponent < 0 then '-' else '+'
  digits.take 1 ++ fraction ++ 'e' :: sign :: digitsOf exponent.natAbs

/-- A positive decimal as text. -/
def Decimal.render (d : Decimal) : List Char :=
  let digits := digitsOf d.digits
  let first : Int := d.exponent + digits.length - 1
  if positionalExponents.1 ≤ first && first < positionalExponents.2 then
    positional digits (first + 1)
  else scientific digits first

/-- A number as text. -/
def render (x : Float) : String :=
  if x.isNaN then "NaN"
  else if x.isInf then (if x < 0.0 then "-Infinity" else "Infinity")
  else
    let m := magnitude x.toBits.toNat
    if m.mantissa = 0 then "0"
    else
      let text := m.shortest.render
      String.ofList (if x < 0.0 then '-' :: text else text)

/-! ## Reading -/

/-- The value of a digit in a base up to sixteen. -/
def digitValue (c : Char) : Nat :=
  if '0' ≤ c && c ≤ '9' then c.toNat - '0'.toNat
  else if 'a' ≤ c && c ≤ 'f' then c.toNat - 'a'.toNat + 10
  else if 'A' ≤ c && c ≤ 'F' then c.toNat - 'A'.toNat + 10
  else 16

/-- The value of a row of digits in a base. -/
def natOfDigits (base : Nat) (s : List Char) : Nat :=
  s.foldl (fun n c => n * base + digitValue c) 0

/-- Splits a sign off, `true` standing for minus. -/
def splitSign : List Char → Bool × List Char
  | '-' :: s => (true, s)
  | '+' :: s => (false, s)
  | s => (false, s)

/-- The exponent part of a decimal, nothing at all counting as zero. -/
def parseExponent : List Char → Option Int
  | [] => some 0
  | c :: s =>
      if c != 'e' && c != 'E' then none
      else
        let (negative, digits) := splitSign s
        if digits.isEmpty || !digits.all Char.isDigit then none
        else
          let n : Int := natOfDigits 10 digits
          some (if negative then -n else n)

/-- A decimal without a sign, as its digits and the exponent of the last one. -/
def parseDecimal (s : List Char) : Option Decimal :=
  let (whole, rest) := s.span Char.isDigit
  let (fraction, rest) := match rest with
    | '.' :: rest => rest.span Char.isDigit
    | rest => ([], rest)
  if whole.isEmpty && fraction.isEmpty then none
  else (parseExponent rest).map fun e =>
    ⟨natOfDigits 10 (whole ++ fraction), e - fraction.length⟩

/-- The number nearest to a decimal. -/
def Decimal.toFloat (d : Decimal) : Float := nearestDecimal d.digits d.exponent

/-- A number without a sign, the names of the special ones among them. -/
def parseUnsigned (s : List Char) : Option Float :=
  let lower := s.map Char.toLower
  if lower == "inf".toList || lower == "infinity".toList then some (1.0 / 0.0)
  else if lower == "nan".toList then some (0.0 / 0.0)
  else (parseDecimal s).map Decimal.toFloat

/-- Reads a number from the whole of a text. -/
def parse (s : List Char) : Option Float :=
  let (negative, rest) := splitSign s
  (parseUnsigned rest).map fun x => if negative then -x else x

/-! ## Tests -/

example : String.ofList (Decimal.render ⟨15, -1⟩) = "1.5" := by decide
example : String.ofList (Decimal.render ⟨1, 20⟩) = "100000000000000000000" := by decide
example : String.ofList (Decimal.render ⟨1, 21⟩) = "1e+21" := by decide
example : String.ofList (Decimal.render ⟨12, -7⟩) = "0.0000012" := by decide
example : String.ofList (Decimal.render ⟨15, -8⟩) = "1.5e-7" := by decide
example : parseDecimal "1.50e2".toList = some ⟨150, 0⟩ := by decide
example : parseDecimal ".".toList = none ∧ parseDecimal "1e".toList = none := by decide

end StaticStyle.Number
