/-!
# Binary64 numbers

A positive finite number is a *magnitude* `m · 2^q` with `m < 2^53`.  `magnitude`
reads it off the bits of a number, and `nearest` goes the other way: it rounds a
positive fraction to the nearest number, a tie to the even mantissa.  The two
are exact integer arithmetic, so everything that has to be correct to the last
bit (reading decimals, printing the shortest decimal, the remainder) is built
on them and not on floating-point operations.

The bits of consecutive positive numbers are consecutive naturals.  That is why
`nearest` may add mantissa and exponent field: a mantissa that rounds up to
`2^53` carries into the exponent, and past the largest number into the bits of
infinity.
-/

namespace StaticStyle.Number

/-! ## Magnitudes -/

/-- A number `mantissa · 2^exponent`. -/
structure Magnitude where
  /-- The mantissa, below `2^53`. -/
  mantissa : Nat
  /-- The power of two it is scaled by. -/
  exponent : Int
deriving DecidableEq, Repr

/-- The exponent of the smallest numbers. -/
def minExponent : Int := -1074

/-- The bit `2^52`, the first of every mantissa except those of the smallest
numbers.  It is not stored. -/
def leadingBit : Nat := 0x10000000000000

/-- The bits of positive infinity. -/
def infinityBits : Nat := 0x7FF * leadingBit

/-- The magnitude of the finite number with the given bits, its sign left out. -/
def magnitude (bits : Nat) : Magnitude :=
  let fraction : Nat := bits % leadingBit
  let field : Nat := bits / leadingBit % 0x800
  if field = 0 then ⟨fraction, minExponent⟩
  else ⟨leadingBit + fraction, (field : Int) - 1 + minExponent⟩

/-- A mantissa below `2^53` as the bits of a number, or the bits of infinity. -/
def bitsOf (mantissa : Nat) (exponent : Int) : Nat :=
  let bits :=
    if mantissa < leadingBit then mantissa
    else (exponent - minExponent + 1).toNat * leadingBit + (mantissa - leadingBit)
  min bits infinityBits

/-! ## Rounding -/

/-- The fraction `num / den` in units of `2^e`, as a quotient with its remainder
and divisor. -/
def inUnits (num den : Nat) (e : Int) : Nat × Nat × Nat :=
  let n := num <<< (-e).toNat
  let d := den <<< e.toNat
  (n / d, n % d, d)

/-- A quotient rounded to the nearest natural, a tie to the even one. -/
def roundEven (quotient remainder divisor : Nat) : Nat :=
  if 2 * remainder < divisor then quotient
  else if divisor < 2 * remainder then quotient + 1
  else quotient + quotient % 2

/-- The bits of the number nearest to `num / den`.  The first guess at the
exponent is the right one or one too small. -/
def nearestBits (num den : Nat) : Nat :=
  if num = 0 ∨ den = 0 then 0
  else
    let guess : Int := (num.log2 : Int) - den.log2 - 53
    let exact := if (inUnits num den guess).1 < 2 * leadingBit then guess else guess + 1
    let e := max exact minExponent
    let (q, r, d) := inUnits num den e
    bitsOf (roundEven q r d) e

/-- The number nearest to `num / den`. -/
def nearest (num den : Nat) : Float := Float.ofBits (nearestBits num den).toUInt64

/-- The number nearest to `m · 10^e`.  Exponents far outside the range of the
numbers are answered without computing the power. -/
def nearestDecimal (m : Nat) (e : Int) : Float :=
  let size : Int := (m.log2 : Int) * 301 / 1000 + e
  if m = 0 ∨ size < -400 then 0.0
  else if 400 < size then Float.ofBits infinityBits.toUInt64
  else nearest (m * Nat.pow 10 e.toNat) (Nat.pow 10 (-e).toNat)

/-! ## The remainder -/

/-- The remainder of a division that truncates: `x - y · trunc (x / y)`, which
is exact and takes its sign from `x`. -/
def remainder (x y : Float) : Float :=
  if x.isNaN || y.isNaN || x.isInf || y == 0.0 then 0.0 / 0.0
  else if y.isInf || x == 0.0 then x
  else
    let a := magnitude x.toBits.toNat
    let b := magnitude y.toBits.toNat
    let e := min a.exponent b.exponent
    let r := (a.mantissa <<< (a.exponent - e).toNat) % (b.mantissa <<< (b.exponent - e).toNat)
    let z := nearest (r <<< e.toNat) (1 <<< (-e).toNat)
    if x < 0.0 then -z else z

/-! ## Tests -/

example : magnitude 0x3FF0000000000000 = ⟨leadingBit, -52⟩ := by decide
example : nearestBits 1 1 = 0x3FF0000000000000 := by decide
/-- A tie between two neighbours goes to the even one. -/
example : nearestBits (2 ^ 53 + 1) 1 = nearestBits (2 ^ 53) 1 := by decide
/-- Half of the smallest number is a tie with zero. -/
example : nearestBits 1 (2 ^ 1075) = 0 ∧ nearestBits 1 (2 ^ 1074) = 1 := by decide +kernel
example : nearestBits (2 ^ 1024) 1 = infinityBits := by decide +kernel

end StaticStyle.Number
