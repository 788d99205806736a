import SmtEncoding.Decimal.Shortest

/-!
# Decimal layouts

A double is written with its shortest digits.  A `Layout` says how they are set: which exponents
are written out in positional notation, and whether a whole number keeps the digit `.0`.  A number
outside the positional range is written `d.ddde±x`, with one digit before the point, no point when
there is only that digit, and a sign of the exponent only when it is negative.
-/

namespace SmtEncoding

/-- The choices of a decimal text. -/
structure Layout where
  /-- The least and the greatest exponent of the leading digit that are written positionally,
  or `none` when every exponent is. -/
  positional : Option (Int × Int)
  /-- Whether a whole number in positional notation ends in `.0`. -/
  wholePoint : Bool
deriving DecidableEq, Repr

namespace Layout

/-- The digits of a decimal without the zeros at their end. -/
def significantDigits (d : Decimal) : List Char :=
  ((Nat.toDigits 10 d.coefficient).reverse.dropWhile (· = '0')).reverse

/-- The exponent of the leading digit of a decimal. -/
def leadingExponent (d : Decimal) : Int :=
  (Nat.toDigits 10 d.coefficient).length - 1 + d.exponent

/-- The end of a whole number in positional notation. -/
def wholeEnd (l : Layout) : List Char := if l.wholePoint then ['.', '0'] else []

/-- Digits in positional notation, the leading one at the exponent `e`. -/
def writePositional (l : Layout) (digits : List Char) (e : Int) : List Char :=
  if e < 0 then
    '0' :: '.' :: (List.replicate (-e - 1).toNat '0' ++ digits)
  else
    let whole := e.toNat + 1
    if digits.length ≤ whole then
      digits ++ List.replicate (whole - digits.length) '0' ++ l.wholeEnd
    else digits.take whole ++ '.' :: digits.drop whole

/-- Digits in exponent notation, the leading one at the exponent `e`. -/
def writeExponential (digits : List Char) (e : Int) : List Char :=
  digits.take 1 ++ (if digits.length ≤ 1 then [] else '.' :: digits.drop 1) ++
    'e' :: (toString e).toList

/-- Whether the exponent `e` is written positionally. -/
def isPositional (l : Layout) (e : Int) : Bool :=
  match l.positional with
  | none => true
  | some (least, greatest) => least ≤ e && e ≤ greatest

/-- A decimal that is not zero. -/
def write (l : Layout) (d : Decimal) : List Char :=
  let e := leadingExponent d
  if l.isPositional e then l.writePositional (significantDigits d) e
  else writeExponential (significantDigits d) e

end Layout

/-- The text of a double in a layout. -/
def Double.text (l : Layout) (x : Double) : String :=
  if x.isNaN then "NaN"
  else
    let magnitude :=
      if !x.isFinite then ['i', 'n', 'f']
      else if x.isZero then '0' :: l.wholeEnd
      else l.write (RoundingInterval.ofDouble x).shortest
    String.ofList (if x.negative then '-' :: magnitude else magnitude)

/-! ## Tests

The layout of the tests writes exponents from -4 to 15 positionally and keeps `.0`. -/

section Tests

/-- The layout of the tests. -/
def testLayout : Layout := ⟨some (-4, 15), true⟩

/-- The last number before exponents begin, and the first one with an exponent. -/
example : (⟨0x4341c37937e07fff⟩ : Double).text testLayout = "9999999999999998.0" := by
  decide +kernel
example : (⟨0x4341c37937e08000⟩ : Double).text testLayout = "1e16" := by decide +kernel
/-- The least positive double needs one digit. -/
example : (⟨0x0000000000000001⟩ : Double).text testLayout = "5e-324" := by decide +kernel
/-- An end of the interval is the shortest decimal, and its last digit is a zero. -/
example : (⟨0x44b52d02c7e14af6⟩ : Double).text testLayout = "1e23" := by decide +kernel
/-- `2 ^ -25` lies half way between two decimals of the shortest length. -/
example : (⟨0x3e60000000000000⟩ : Double).text testLayout = "2.9802322387695313e-8" := by
  decide +kernel
example : (⟨0x8000000000000000⟩ : Double).text testLayout = "-0.0" := by decide +kernel
example : (⟨0x8000000000000000⟩ : Double).text ⟨none, false⟩ = "-0" := by decide +kernel
example : (⟨0xfff0000000000000⟩ : Double).text testLayout = "-inf" := by decide +kernel

end Tests

end SmtEncoding
