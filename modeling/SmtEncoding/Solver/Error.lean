import SmtEncoding.Formula.Expr
import SmtEncoding.Solver.Sort

/-!
# Encoding errors

Every error ends the call that meets it.  An error names its cause, and `EncodeError.message` is
the text that a user reads.
-/

namespace SmtEncoding

/-- Why a formula, a term or a variable has no encoding. -/
inductive EncodeError where
  /-- Nodes of this kind have no encoding. -/
  | unsupportedNode (kind : NodeKind)
  /-- The function is not available at this result type. -/
  | unsupportedFunction (function : FunctionKind) (type : ValueType)
  /-- A term of this type is not a number. -/
  | unsupportedType (type : ValueType)
  /-- The backend has no values of this type. -/
  | backendUnsupportedType (type : ValueType)
  /-- A variable is not registered, and none may be created. -/
  | variableNotPreregistered (name : String)
  /-- A variable is registered under another sort than the one asked for. -/
  | sortMismatch (name : String) (expected found : SolverSort)
  /-- An operand has another sort than the operation takes. -/
  | incompatibleOperand (expected found : SolverSort)
  /-- A double that is not a rational number. -/
  | nonFiniteConstant (value : Double)
deriving DecidableEq, Repr

namespace EncodeError

/-- Doubles in messages are always positional, and whole ones have no point. -/
def layout : Layout := ⟨none, false⟩

/-- The text of an error. -/
def message : EncodeError → String
  | unsupportedNode kind =>
    "nodes of kind " ++ kind.name ++ " are not supported by the translator"
  | unsupportedFunction function type =>
    "function " ++ function.name ++ " is not supported for result type " ++ type.name
  | unsupportedType type => "unsupported term type: " ++ type.name
  | backendUnsupportedType type => "backend does not support values of type " ++ type.name
  | variableNotPreregistered name =>
    "variable '" ++ name ++ "' was not registered before translation"
  | sortMismatch name expected found =>
    "variable '" ++ name ++ "' is registered as " ++ found.name ++ ", requested as " ++
      expected.name
  | incompatibleOperand expected found =>
    "expected an operand of sort " ++ expected.name ++ ", got " ++ found.name
  | nonFiniteConstant value =>
    "constant " ++ value.text layout ++ " has no rational representation"

end EncodeError

end SmtEncoding
