/-!
# Variables

A variable is a name with a declared type.  Both count for its identity: a truth value `x` and a
whole number `x` are two variables.  Variables are ordered by name, code point by code point, and
then by type.
-/

namespace SmtEncoding

/-- The declared type of a variable, or the type of a term. -/
inductive ValueType where
  | bool
  | integer
  /-- Doubles, which are encoded as rationals. -/
  | double
deriving DecidableEq, Repr

namespace ValueType

/-- The name of a type. -/
def name : ValueType → String
  | bool => "Bool"
  | integer => "Integer"
  | double => "Double"

/-- The place of a type in the order of types. -/
def rank : ValueType → Nat
  | bool => 0
  | integer => 1
  | double => 2

end ValueType

/-- A variable of a formula. -/
structure Variable where
  /-- Any text, the empty one included. -/
  name : String
  type : ValueType
deriving DecidableEq, Repr

namespace Variable

/-- The text of a variable with its type. -/
def text (v : Variable) : String := v.name ++ ": " ++ v.type.name

/-- The order of variables: by name, then by type. -/
def le (v w : Variable) : Bool :=
  decide (v.name < w.name) || (v.name == w.name && decide (v.type.rank ≤ w.type.rank))

/-- Variables in their order. -/
def sort (vs : List Variable) : List Variable := vs.mergeSort le

end Variable

end SmtEncoding
