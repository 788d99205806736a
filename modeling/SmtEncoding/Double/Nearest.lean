import SmtEncoding.Decimal.Shortest

/-!
# Nearest double

A decimal is rounded to the nearest double.  Half way between two doubles the one with the even
significand is taken.  A number of at least half a step above the greatest finite double becomes
an infinity, and one of at most half the least positive double becomes zero.

`bounded` keeps the exact arithmetic small: a decimal of more than 400 places before or after the
point is an infinity or a zero without looking at its digits.
-/

namespace SmtEncoding.Double

/-- The quotient `n / d` rounded to the nearest whole number, a half to the even one. -/
def roundDiv (n d : Nat) : Nat :=
  let quotient := n / d
  let twice := 2 * (n % d)
  if twice < d then quotient
  else if d < twice then quotient + 1
  else quotient + quotient % 2

/-- The power of two `2 ^ e` for which `n / d` has 53 bits before the point, or the least one that
a double can have. -/
def scaleOf (n d : Nat) : Int :=
  let estimate : Int := (n.log2 : Int) - d.log2 - 52
  let fits := n * Nat.pow 2 (-estimate).toNat < d * Nat.pow 2 estimate.toNat * Nat.pow 2 52
  max (if fits then estimate - 1 else estimate) (-1074)

/-- The double nearest to `n / d`, for a positive `d`. -/
def nearestRatio (negative : Bool) (n d : Nat) : Double :=
  if n = 0 then ofFields negative 0 0
  else
    let e := scaleOf n d
    let m := roundDiv (n * Nat.pow 2 (-e).toNat) (d * Nat.pow 2 e.toNat)
    let (m, e) := if m = Nat.pow 2 53 then (Nat.pow 2 52, e + 1) else (m, e)
    if m < Nat.pow 2 52 then ofFields negative 0 m
    else if 971 < e then infinity negative
    else ofFields negative (e + 1075).toNat (m - Nat.pow 2 52)

/-- The number of places beyond which every decimal is an infinity or zero. -/
def placeBound : Int := 400

/-- The double nearest to a decimal. -/
def nearestDecimal (negative : Bool) (d : Decimal) : Double :=
  let place : Int := Decimal.digitCount d.coefficient + d.exponent
  if d.coefficient = 0 then ofFields negative 0 0
  else if placeBound < place then infinity negative
  else if place < -placeBound then ofFields negative 0 0
  else
    nearestRatio negative (d.coefficient * Nat.pow 10 d.exponent.toNat)
      (Nat.pow 10 (-d.exponent).toNat)

/-! ## Tests -/

section Tests

/-- Half way between two doubles the significand is even. -/
example : nearestDecimal false ⟨9007199254740993, 0⟩ = ⟨0x4340000000000000⟩ := by decide +kernel
example : nearestDecimal false ⟨9007199254740995, 0⟩ = ⟨0x4340000000000002⟩ := by decide +kernel
/-- The greatest double, and the first decimal above it that is an infinity. -/
example : nearestDecimal false ⟨17976931348623157, 292⟩ = ⟨0x7fefffffffffffff⟩ := by
  decide +kernel
example : nearestDecimal true ⟨17976931348623159, 292⟩ = infinity true := by decide +kernel
/-- The least positive double, and a decimal that is nearer to zero. -/
example : nearestDecimal false ⟨3, -324⟩ = ⟨1⟩ := by decide +kernel
example : nearestDecimal false ⟨2, -324⟩ = ⟨0⟩ := by decide +kernel

end Tests

end SmtEncoding.Double
