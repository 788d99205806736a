import SmtEncoding.SmtLib.SExpr

/-!
# SMT-LIB literals

Literals have no sign of their own, so a negative number is written by the operator `-`.  A whole
number of sort `Real` ends in `.0`, and any other rational is a quotient of two such numbers in
lowest terms.
-/

namespace SmtEncoding.SmtLib

/-- A literal, negated if asked for. -/
def signed (negative : Bool) (magnitude : SExpr) : SExpr :=
  if negative then .apply "-" [magnitude] else magnitude

/-- A whole number of sort `Int`. -/
def intLiteral (n : Int) : SExpr := signed (n < 0) (.atom (toString n.natAbs))

/-- A whole number of sort `Real` without a sign. -/
def wholeReal (n : Nat) : SExpr := .atom (toString n ++ ".0")

/-- A rational number. -/
def realLiteral (q : Rat) : SExpr :=
  signed (q.num < 0)
    (if q.den = 1 then wholeReal q.num.natAbs
    else .apply "/" [wholeReal q.num.natAbs, wholeReal q.den])

/-! ## Tests -/

section Tests

example : (intLiteral (-7)).text = "(- 7)" := by decide +kernel
example : (realLiteral 2).text = "2.0" := by decide +kernel
example : (realLiteral (mkRat (-6) 4)).text = "(- (/ 3.0 2.0))" := by decide +kernel
example : (realLiteral 0).text = "0.0" := by decide +kernel

end Tests

end SmtEncoding.SmtLib
