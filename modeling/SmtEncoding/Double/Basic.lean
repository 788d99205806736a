/-!
# Doubles

A double is a bit pattern of 64 bits: one sign bit, an exponent field of 11 bits and a fraction
field of 52 bits.  An exponent field of all ones is an infinity (fraction zero) or not a number.
Every other pattern is a finite number `± significand · 2 ^ scale`.  The significand is the
fraction, with a leading one put in front unless the exponent field is zero.

`toRat?` gives the exact rational value of a finite double.  `equal` compares doubles as numbers:
the two zeros are equal, and not-a-number is equal to nothing.  Plain equality `=` compares bit
patterns.
-/

namespace SmtEncoding

/-- A double-precision number, given by its bit pattern. -/
structure Double where
  /-- The pattern, sign bit first. -/
  bits : UInt64
deriving DecidableEq, Repr, Inhabited

namespace Double

/-! ## Fields -/

/-- The sign bit. -/
def negative (x : Double) : Bool := decide (Nat.pow 2 63 ≤ x.bits.toNat)

/-- The exponent field. -/
def exponentField (x : Double) : Nat := x.bits.toNat / Nat.pow 2 52 % Nat.pow 2 11

/-- The fraction field. -/
def fractionField (x : Double) : Nat := x.bits.toNat % Nat.pow 2 52

/-- The exponent field of the infinities and of not-a-number. -/
def specialExponent : Nat := Nat.pow 2 11 - 1

/-- The double with the given fields.  The fields have to be in range. -/
def ofFields (negative : Bool) (exponent fraction : Nat) : Double :=
  ⟨UInt64.ofNat ((if negative then Nat.pow 2 63 else 0) + exponent * Nat.pow 2 52 + fraction)⟩

/-- The infinity of the given sign. -/
def infinity (negative : Bool) : Double := ofFields negative specialExponent 0

/-- A pattern that is not a number. -/
def notANumber (negative : Bool) : Double := ofFields negative specialExponent (Nat.pow 2 51)

/-! ## Classes -/

/-- Neither an infinity nor not-a-number. -/
def isFinite (x : Double) : Bool := decide (x.exponentField ≠ specialExponent)

/-- Not a number. -/
def isNaN (x : Double) : Bool :=
  decide (x.exponentField = specialExponent ∧ x.fractionField ≠ 0)

/-- One of the two zeros. -/
def isZero (x : Double) : Bool := decide (x.exponentField = 0 ∧ x.fractionField = 0)

/-! ## Value -/

/-- The whole number that the fields of a finite double scale. -/
def significand (x : Double) : Nat :=
  if x.exponentField = 0 then x.fractionField else Nat.pow 2 52 + x.fractionField

/-- The power of two that scales the significand of a finite double. -/
def scale (x : Double) : Int := (max x.exponentField 1 : Nat) - 1075

/-- The exact value of a finite double. -/
def toRat? (x : Double) : Option Rat :=
  if x.isFinite then
    let magnitude : Nat := x.significand * Nat.pow 2 x.scale.toNat
    some (mkRat (if x.negative then -(magnitude : Int) else magnitude) (Nat.pow 2 (-x.scale).toNat))
  else none

/-- Equality of doubles as numbers. -/
def equal (x y : Double) : Bool :=
  !x.isNaN && !y.isNaN && (x.bits == y.bits || (x.isZero && y.isZero))

end Double

end SmtEncoding
