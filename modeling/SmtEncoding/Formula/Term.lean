import SmtEncoding.Decimal.Layout
import SmtEncoding.Formula.Variable

/-!
# Terms

A term is a constant, a variable or a function applied to terms.  A function application carries
the type it is evaluated in, which need not agree with the types of its arguments.

`Term.text` writes a term in prefix form.  `Term.equal` is equality of trees in which double
constants are compared as numbers, so it fails to be reflexive where a constant is not a number.
-/

namespace SmtEncoding

/-! ## Constants and functions -/

/-- A numeric constant. -/
inductive Constant where
  | integer (value : Int)
  | double (value : Double)
deriving DecidableEq, Repr

namespace Constant

/-- The type of a constant. -/
def type : Constant → ValueType
  | integer _ => .integer
  | double _ => .double

/-- Doubles in formulas are positional from `1e-4` up to `1e16` and keep `.0` there. -/
def layout : Layout := ⟨some (-4, 15), true⟩

/-- The text of a constant. -/
def text : Constant → String
  | integer n => toString n
  | double x => x.text layout

/-- Equality of constants, with doubles compared as numbers. -/
def equal : Constant → Constant → Bool
  | integer m, integer n => m == n
  | double x, double y => x.equal y
  | _, _ => false

end Constant

/-- A function symbol. -/
inductive FunctionKind where
  | add
  | multiply
  | divide
deriving DecidableEq, Repr

namespace FunctionKind

/-- The operator sign of a function. -/
def symbol : FunctionKind → String
  | add => "+"
  | multiply => "*"
  | divide => "/"

/-- The name of a function. -/
def name : FunctionKind → String
  | add => "Add"
  | multiply => "Multiply"
  | divide => "Divide"

end FunctionKind

/-! ## Terms -/

/-- A numeric term. -/
inductive Term where
  | constant (value : Constant)
  | var (v : Variable)
  /-- A function of the given type applied to arguments. -/
  | app (function : FunctionKind) (args : List Term) (type : ValueType)
deriving Repr

/-- An operator applied to operand texts, in parentheses. -/
def applicationText (operator : String) (operands : List String) : String :=
  "(" ++ " ".intercalate (operator :: operands) ++ ")"

namespace Term

/-- The declared type of a term. -/
def type : Term → ValueType
  | constant c => c.type
  | var v => v.type
  | app _ _ type => type

mutual

/-- The text of a term. -/
def text : Term → String
  | constant c => c.text
  | var v => v.name
  | app f args _ => applicationText f.symbol (texts args)

/-- The texts of terms. -/
def texts : List Term → List String
  | [] => []
  | t :: ts => text t :: texts ts

end

mutual

/-- Equality of terms, with double constants compared as numbers. -/
def equal : Term → Term → Bool
  | constant c, constant d => c.equal d
  | var v, var w => v == w
  | app f as s, app g bs t => f == g && equalAll as bs && s == t
  | _, _ => false

/-- Equality of lists of terms, with double constants compared as numbers. -/
def equalAll : List Term → List Term → Bool
  | [], [] => true
  | a :: as, b :: bs => equal a b && equalAll as bs
  | _, _ => false

end

instance : BEq Term := ⟨equal⟩

end Term

end SmtEncoding
