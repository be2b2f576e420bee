import StaticStyle.Number.Binary64

/-!
# The shortest decimal

The reals that round to a number form an interval around it, closed when its
mantissa is even and open when it is odd.  The shortest decimal of a number is
a decimal in that interval with as few digits as possible, and of several such
decimals the one nearest to the number.

Only two candidates need to be tried for each count of digits: the decimals of
that many digits next below and next above the number.  If any decimal on that
grid lies in the interval, so does one of these two.  Seventeen digits always
suffice.  When both lie in the interval at the same distance, the larger one is
taken.
-/

namespace StaticStyle.Number

/-- A decimal `digits · 10^exponent`. -/
structure Decimal where
  /-- The digits, read as one natural number. -/
  digits : Nat
  /-- The power of ten it is scaled by. -/
  exponent : Int
deriving DecidableEq, Repr

/-! ## The rounding interval -/

/-- The interval of reals that round to a magnitude, in units of a quarter of
its last place, with the magnitude itself between the ends.  Below a power of
two the numbers are twice as dense, so the lower end is half as far away. -/
structure Interval where
  /-- The lower end. -/
  low : Nat
  /-- The magnitude. -/
  middle : Nat
  /-- The upper end. -/
  high : Nat
  /-- Whether the ends belong to the interval. -/
  closed : Bool
  /-- The power of two of the unit. -/
  unit : Int
deriving DecidableEq, Repr

/-- The rounding interval of a magnitude. -/
def Magnitude.interval (x : Magnitude) : Interval :=
  let narrow := x.mantissa == leadingBit && minExponent < x.exponent
  { low := 4 * x.mantissa - if narrow then 1 else 2
    middle := 4 * x.mantissa
    high := 4 * x.mantissa + 2
    closed := x.mantissa % 2 == 0
    unit := x.exponent - 2 }

/-- The factors that turn a count of units, and a count of powers `10^p`, into
naturals on one scale. -/
def scales (unit p : Int) : Nat × Nat :=
  (Nat.pow 10 (-p).toNat <<< unit.toNat, Nat.pow 10 p.toNat <<< (-unit).toNat)

/-- Whether the decimal `c · 10^p` lies in the interval. -/
def Interval.holds (i : Interval) (c : Nat) (p : Int) : Bool :=
  let (u, t) := scales i.unit p
  let x := c * t
  if i.closed then i.low * u ≤ x && x ≤ i.high * u else i.low * u < x && x < i.high * u

/-! ## The search -/

/-- The decimal on the grid of multiples of `10^p` that lies in the interval and
is nearest to its middle. -/
def Interval.pick (i : Interval) (p : Int) : Option Decimal :=
  let (u, t) := scales i.unit p
  let v := i.middle * u
  let below := v / t
  match i.holds below p, i.holds (below + 1) p with
  | false, false => none
  | true, false => some ⟨below, p⟩
  | false, true => some ⟨below + 1, p⟩
  | true, true => some ⟨if v - below * t < (below + 1) * t - v then below else below + 1, p⟩

/-- Tries finer and finer grids, `count` of them from the multiples of `10^p`
on. -/
def Interval.search (i : Interval) : (count : Nat) → (p : Int) → Decimal
  | 0, p => ⟨i.middle, p⟩
  | count + 1, p => (i.pick p).getD (i.search count (p - 1))
termination_by structural count => count

/-- The number of decimal digits of a natural, at least one. -/
def digitCount (n : Nat) : Nat := (Nat.toDigits 10 n).length

/-- An exponent of ten that is at least that of the first digit of a magnitude. -/
def Magnitude.topExponent (x : Magnitude) : Int :=
  let e := x.exponent
  if 0 ≤ e then (digitCount (x.mantissa <<< e.toNat) : Int)
  else (digitCount ((x.mantissa * Nat.pow 10 (-e).toNat) >>> (-e).toNat) : Int) + e

/-- The decimal without the zeros at the end of its digits. -/
def Decimal.strip : (count : Nat) → Decimal → Decimal
  | 0, d => d
  | count + 1, d =>
      if d.digits % 10 == 0 && d.digits != 0 then strip count ⟨d.digits / 10, d.exponent + 1⟩ else d
termination_by structural count _ => count

/-- The shortest decimal of a positive magnitude. -/
def Magnitude.shortest (x : Magnitude) : Decimal :=
  (x.interval.search 20 x.topExponent).strip 20

/-! ## Tests -/

example : (magnitude 0x3FB999999999999A).shortest = ⟨1, -1⟩ := by decide +kernel
example : (magnitude 1).shortest = ⟨5, -324⟩ := by decide +kernel
example : (magnitude 0x44B52D02C7E14AF6).shortest = ⟨1, 23⟩ := by decide +kernel
/-- `2^-24` is a tie of two sixteen-digit decimals. -/
example : (magnitude 0x3E70000000000000).shortest = ⟨5960464477539063, -23⟩ := by decide +kernel

end StaticStyle.Number
