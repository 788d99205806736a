import SmtEncoding.Double.Basic

/-!
# Shortest decimals

The reals that round to one double form an interval around it.  It reaches half way to the next
double on either side, and its ends belong to it when the significand is even.  Below a power of
two the next double is only half as far away.

`Interval.shortest` finds the decimal with the fewest digits in such an interval.  For each number
of digits it looks at the two neighbours of the value on the grid of decimals with that many
digits.  The first grid with a neighbour in the interval wins.  If both neighbours are in it the
nearer one is taken, and the upper one when they are equally near.

All of it is exact: the interval is given by whole numbers over a common unit.
-/

namespace SmtEncoding

/-! ## Decimals -/

/-- The number `coefficient · 10 ^ exponent`. -/
structure Decimal where
  /-- The digits, read as one whole number. -/
  coefficient : Nat
  /-- The power of ten that scales the coefficient. -/
  exponent : Int
deriving DecidableEq, Repr

/-- The number of decimal digits of a whole number. -/
def Decimal.digitCount (n : Nat) : Nat := (Nat.toDigits 10 n).length

/-! ## Rounding intervals -/

/-- The positive numbers that round to one double.  The number `n` stands for `n / unit`. -/
structure RoundingInterval where
  /-- The common unit. -/
  unit : Nat
  /-- The lower end. -/
  lower : Nat
  /-- The double itself. -/
  value : Nat
  /-- The upper end. -/
  upper : Nat
  /-- Whether the ends belong to the interval. -/
  closed : Bool
deriving DecidableEq, Repr

namespace RoundingInterval

/-- The interval of the magnitude of a finite double that is not zero. -/
def ofDouble (x : Double) : RoundingInterval :=
  let step := Nat.pow 2 x.scale.toNat
  let value := 4 * x.significand * step
  let powerOfTwo := x.fractionField = 0 ∧ 1 < x.exponentField
  { unit := 4 * Nat.pow 2 (-x.scale).toNat
    lower := value - (if powerOfTwo then step else 2 * step)
    value := value
    upper := value + 2 * step
    closed := x.significand % 2 = 0 }

/-- Whether `n / d` lies in the interval, for a positive `d`. -/
def contains (i : RoundingInterval) (n d : Nat) : Bool :=
  if i.closed then i.lower * d ≤ n * i.unit && n * i.unit ≤ i.upper * d
  else i.lower * d < n * i.unit && n * i.unit < i.upper * d

/-- The place of the leading digit of the value: the `p` with `10 ^ (p - 1) ≤ value < 10 ^ p`. -/
def place (i : RoundingInterval) : Int :=
  let shift := Decimal.digitCount i.unit
  Decimal.digitCount (i.value * Nat.pow 10 shift / i.unit) - shift

/-- Whether `c · 10 ^ k` lies in the interval. -/
def containsDecimal (i : RoundingInterval) (c : Nat) (k : Int) : Bool :=
  i.contains (c * Nat.pow 10 k.toNat) (Nat.pow 10 (-k).toNat)

/-- The point of the grid with step `10 ^ k` that lies in the interval and is nearest to its value,
if a neighbour of the value on that grid lies in the interval. -/
def nearest? (i : RoundingInterval) (k : Int) : Option Nat :=
  let n := i.value * Nat.pow 10 (-k).toNat
  let d := i.unit * Nat.pow 10 k.toNat
  let below := n / d
  match i.containsDecimal below k, i.containsDecimal (below + 1) k with
  | true, true => if n - below * d < (below + 1) * d - n then some below else some (below + 1)
  | true, false => some below
  | false, true => some (below + 1)
  | false, false => none

/-- The number of digits that tells any two doubles apart. -/
def maxDigits : Nat := 17

/-- The decimal with the fewest digits in the interval. -/
def shortest (i : RoundingInterval) : Decimal :=
  let place := i.place
  let decimal? (n : Nat) : Option Decimal := (i.nearest? (place - n)).map fun c => ⟨c, place - n⟩
  ((List.range' 1 maxDigits).findSome? decimal?).getD ⟨i.value / i.unit, 0⟩

end RoundingInterval

end SmtEncoding
