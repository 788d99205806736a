import Mathlib
import SmtEncoding.Solver.Operation

/-!
# Values

The values of the three sorts are Booleans, integers and rationals.  A `Valuation` gives every name
a value of each sort.  Under a valuation every operation has a value: empty conjunctions are true,
empty disjunctions false, empty sums zero and empty products one, and a rational operation reads
whole numbers as rationals.  The value of a finite double is the rational that it is encoded as.
-/

namespace SmtEncoding

/-- The values of a sort. -/
@[reducible] def Carrier : SolverSort → Type
  | .bool => Bool
  | .int => Int
  | .real => Rat

/-- A value with its sort. -/
abbrev Value : Type := Object Carrier

/-- A value of each sort for each name. -/
abbrev Valuation : Type := (sort : SolverSort) → String → Carrier sort

/-- The valuation under which names are false and zero. -/
def Valuation.zero : Valuation
  | .bool, _ => false
  | .int, _ => (0 : Int)
  | .real, _ => (0 : Rat)

/-- A numeral read as a rational. -/
def Numeral.toRat : Numeral Carrier → Rat
  | integer n => ((n : Int) : Rat)
  | rational q => q

/-- The whole number of a numeral, if it is one. -/
def Numeral.toInt? : Numeral Carrier → Option Int
  | integer n => some n
  | rational _ => none

/-- Whether a comparison holds. -/
def Comparison.holds {α : Type} [LinearOrder α] (c : Comparison) (a b : α) : Bool :=
  match c with
  | lessThan => decide (a < b)
  | greaterThan => decide (b < a)
  | lessEqual => decide (a ≤ b)
  | greaterEqual => decide (b ≤ a)
  | equals => decide (a = b)

/-- Whether a comparison holds between numerals.  They are compared as rationals unless both are
whole numbers. -/
def Comparison.holdsBetween (c : Comparison) : Numeral Carrier → Numeral Carrier → Bool
  | .integer m, .integer n => c.holds (m : Int) n
  | m, n => c.holds m.toRat n.toRat

/-! ## Doubles -/

/-- The number that the fields of a double stand for, if it is finite. -/
def Double.value (x : Double) : Rat :=
  (if x.negative then -1 else 1) * x.significand * 2 ^ x.scale

/-- The rational of a finite double is its exact value. -/
theorem Double.toRat?_eq_some {x : Double} (h : x.isFinite = true) : x.toRat? = some x.value := by
  have hscale : (2 : Rat) ^ x.scale = 2 ^ x.scale.toNat / 2 ^ (-x.scale).toNat := by
    rw [← zpow_natCast, ← zpow_natCast, ← zpow_sub₀ two_ne_zero, Int.toNat_sub_toNat_neg]
  simp only [toRat?, if_pos h, value, Rat.mkRat_eq_div, hscale, Nat.pow_eq]
  congr 1
  cases x.negative with
  | false =>
    rw [if_neg nofun, if_neg nofun]
    push_cast
    ring
  | true =>
    rw [if_pos rfl, if_pos rfl]
    push_cast
    ring

/-! ## Operations -/

/-- The value of a core operation. -/
def CoreOp.value (val : Valuation) : {s : SolverSort} → CoreOp Carrier s → Carrier s
  | _, boolConstant value => value
  | _, boolVar name => val .bool name
  | _, not a => !a
  | _, and as => as.all id
  | _, or as => as.any id
  | _, implies a b => !a || b
  | _, iff a b => a == b
  | _, intConstant n => n
  | _, intVar name => val .int name
  | _, intAdd ns => List.sum (α := Int) ns
  | _, intMultiply ns => List.prod (α := Int) ns
  | _, intCompare c m n => c.holds (α := Int) m n

/-- The value of a rational operation. -/
def RationalOp.value (val : Valuation) : {s : SolverSort} → RationalOp Carrier s → Carrier s
  | _, constant q => q
  | _, var name => val .real name
  | _, add ns => (ns.map Numeral.toRat).sum
  | _, multiply ns => (ns.map Numeral.toRat).prod
  | _, compare c m n => c.holds m.toRat n.toRat

end SmtEncoding
