import SmtEncoding.SmtLib.Declarations
import SmtEncoding.SmtLib.Literal
import SmtEncoding.Solver.Backend

/-!
# The SMT-LIB backend

Objects of every sort are nodes.  An operation builds a new node, with two exceptions: a constant
that is declared already is found again, and a conjunction, disjunction, sum or product of one
operand is that operand.  Without operands these four are their neutral element.  A whole number
among the operands of a rational operation is converted by `to_real`.
-/

namespace SmtEncoding.SmtLib

/-- An operator over any number of nodes. -/
def fold (operator neutral : String) : List Node → Call State Node
  | [] => fresh (.atom neutral)
  | [x] => pure x
  | xs => fresh (.apply operator (xs.map Node.expr))

/-- The objects of the backend. -/
abbrev Obj : SolverSort → Type := fun _ => Node

/-- A numeral as a rational. -/
def asReal : Numeral Obj → SExpr
  | .integer x => .apply "to_real" [x.expr]
  | .rational x => x.expr

/-- An operator over any number of numerals, read as rationals. -/
def foldReal (operator neutral : String) : List (Numeral Obj) → Call State Node
  | [] => fresh (.atom neutral)
  | [.integer x] => fresh (asReal (.integer x))
  | [.rational x] => pure x
  | ns => fresh (.apply operator (ns.map asReal))

/-- Builds a node by a core operation. -/
def buildCore {s : SolverSort} : CoreOp Obj s → Call State Node
  | .boolConstant true => fresh (.atom "true")
  | .boolConstant false => fresh (.atom "false")
  | .boolVar name => constant name .bool
  | .not x => fresh (.apply "not" [x.expr])
  | .and xs => fold "and" "true" xs
  | .or xs => fold "or" "false" xs
  | .implies x y => fresh (.apply "=>" [x.expr, y.expr])
  | .iff x y => fresh (.apply "=" [x.expr, y.expr])
  | .intConstant n => fresh (intLiteral n)
  | .intVar name => constant name .int
  | .intAdd xs => fold "+" "0" xs
  | .intMultiply xs => fold "*" "1" xs
  | .intCompare c x y => fresh (.apply c.symbol [x.expr, y.expr])

/-- Builds a node by a rational operation. -/
def buildRational {s : SolverSort} : RationalOp Obj s → Call State Node
  | .constant q => fresh (realLiteral q)
  | .var name => constant name .real
  | .add ns => foldReal "+" "0.0" ns
  | .multiply ns => foldReal "*" "1.0" ns
  | .compare c m n => fresh (.apply c.symbol [asReal m, asReal n])

/-- The backend that builds SMT-LIB terms. -/
@[reducible] def backend : Backend where
  State := State
  Obj := Obj
  capabilities := State.capabilities
  describe := fun x => x.expr.describe
  core := buildCore
  rational := fun op => ExceptT.lift (buildRational op)

end SmtEncoding.SmtLib
