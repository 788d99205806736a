import SmtEncoding.Formula.Variable

/-!
# Solver sorts

The objects of a solver have one of three sorts.  A declared type asks for one of them.
-/

namespace SmtEncoding

/-- The sort of a solver object. -/
inductive SolverSort where
  | bool
  | int
  | real
deriving DecidableEq, Repr

/-- The name of a sort. -/
def SolverSort.name : SolverSort → String
  | bool => "Bool"
  | int => "Int"
  | real => "Real"

/-- The sort that a declared type asks for. -/
def ValueType.sort : ValueType → SolverSort
  | bool => .bool
  | integer => .int
  | double => .real

end SmtEncoding
