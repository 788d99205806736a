import SmtEncoding.Solver.Action
import SmtEncoding.Solver.Operation

/-!
# Backends

A backend owns the representation of solver objects and builds them one operation at a time.  Core
operations always succeed.  Rational operations may fail, and a backend that does not say how to
build them fails at each one.
-/

namespace SmtEncoding

/-- A way to represent and build solver objects. -/
structure Backend where
  /-- What a backend remembers between operations. -/
  State : Type
  /-- The objects of each sort. -/
  Obj : SolverSort → Type
  /-- What a backend can express. -/
  capabilities : State → Capabilities
  /-- A description of an object for people. -/
  describe : {s : SolverSort} → Obj s → String
  /-- Builds an object by a core operation. -/
  core : {s : SolverSort} → CoreOp Obj s → Call State (Obj s)
  /-- Builds an object by a rational operation. -/
  rational : {s : SolverSort} → RationalOp Obj s → Action State (Obj s) :=
    fun _ => throw (.backendUnsupportedType .double)

/-- The operation that creates an object for a name. -/
def Backend.createVariable (B : Backend) (name : String) :
    (sort : SolverSort) → Action B.State (B.Obj sort)
  | .bool => ExceptT.lift (B.core (.boolVar name))
  | .int => ExceptT.lift (B.core (.intVar name))
  | .real => B.rational (.var name)

end SmtEncoding
