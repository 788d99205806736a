import SmtEncoding.Formula.Expr
import SmtEncoding.Solver.Object

/-!
# Operations

The operations by which solver objects are built, as data.  `O` gives the type of the operands of
each sort, and the index of an operation is the sort of the object that it builds.

`CoreOp` holds what every backend can build.  `RationalOp` holds what needs rational arithmetic.
Its operands may be whole numbers, which the backend then reads as rationals.  `Operation` is an
operation of either kind.
-/

namespace SmtEncoding

/-- An operation on truth values and whole numbers. -/
inductive CoreOp (O : SolverSort → Type) : SolverSort → Type where
  | boolConstant (value : Bool) : CoreOp O .bool
  /-- The truth value of a name. -/
  | boolVar (name : String) : CoreOp O .bool
  | not (operand : O .bool) : CoreOp O .bool
  | and (operands : List (O .bool)) : CoreOp O .bool
  | or (operands : List (O .bool)) : CoreOp O .bool
  | implies (left right : O .bool) : CoreOp O .bool
  | iff (left right : O .bool) : CoreOp O .bool
  | intConstant (value : Int) : CoreOp O .int
  /-- The whole number of a name. -/
  | intVar (name : String) : CoreOp O .int
  | intAdd (operands : List (O .int)) : CoreOp O .int
  | intMultiply (operands : List (O .int)) : CoreOp O .int
  | intCompare (comparison : Comparison) (left right : O .int) : CoreOp O .bool

/-- An operation on rationals. -/
inductive RationalOp (O : SolverSort → Type) : SolverSort → Type where
  | constant (value : Rat) : RationalOp O .real
  /-- The rational of a name. -/
  | var (name : String) : RationalOp O .real
  | add (operands : List (Numeral O)) : RationalOp O .real
  | multiply (operands : List (Numeral O)) : RationalOp O .real
  | compare (comparison : Comparison) (left right : Numeral O) : RationalOp O .bool

/-- An operation of either kind. -/
inductive Operation (O : SolverSort → Type) : Type where
  | core {s : SolverSort} (op : CoreOp O s)
  | rational {s : SolverSort} (op : RationalOp O s)

/-- The name and the sort of the variable that an operation asks for, if it asks for one. -/
def Operation.request? {O : SolverSort → Type} : Operation O → Option (String × SolverSort)
  | core (.boolVar name) => some (name, .bool)
  | core (.intVar name) => some (name, .int)
  | rational (.var name) => some (name, .real)
  | _ => none

end SmtEncoding
