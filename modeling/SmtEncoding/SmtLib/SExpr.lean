import SmtEncoding.Text.Quoted

/-!
# S-expressions

An s-expression is an atom or a list of s-expressions.  A `Node` is an s-expression with a number
that tells it apart from other nodes of the same structure: two handles refer to the same node
exactly when their numbers are equal.
-/

namespace SmtEncoding

/-- An s-expression. -/
inductive SExpr where
  | atom (text : String)
  /-- A list in parentheses. -/
  | list (items : List SExpr)
deriving Repr, Inhabited

namespace SExpr

/-- An operator applied to operands. -/
def apply (operator : String) (operands : List SExpr) : SExpr := .list (.atom operator :: operands)

/-! ## Text -/

mutual

/-- The text of an s-expression. -/
def text : SExpr → String
  | atom s => s
  | list items => "(" ++ " ".intercalate (texts items) ++ ")"

/-- The texts of s-expressions. -/
def texts : List SExpr → List String
  | [] => []
  | x :: xs => text x :: texts xs

end

mutual

/-- The description of an s-expression by its structure. -/
def describe : SExpr → String
  | atom s => "SExpr(Atom(" ++ Text.quote s ++ "))"
  | list items => "SExpr(List([" ++ ", ".intercalate (describeAll items) ++ "]))"

/-- The descriptions of s-expressions. -/
def describeAll : List SExpr → List String
  | [] => []
  | x :: xs => describe x :: describeAll xs

end

/-! ## Equality -/

mutual

/-- Equality of structure. -/
def equal : SExpr → SExpr → Bool
  | atom s, atom t => s == t
  | list xs, list ys => equalAll xs ys
  | _, _ => false

/-- Equality of structure, item by item. -/
def equalAll : List SExpr → List SExpr → Bool
  | [], [] => true
  | x :: xs, y :: ys => equal x y && equalAll xs ys
  | _, _ => false

end

mutual

theorem equal_iff_eq : ∀ x y : SExpr, equal x y = true ↔ x = y
  | atom s, atom t => by simp [equal]
  | atom _, list _ => by simp [equal]
  | list _, atom _ => by simp [equal]
  | list xs, list ys => by simp [equal, equalAll_iff_eq xs ys]

theorem equalAll_iff_eq : ∀ xs ys : List SExpr, equalAll xs ys = true ↔ xs = ys
  | [], [] => by simp [equalAll]
  | [], _ :: _ => by simp [equalAll]
  | _ :: _, [] => by simp [equalAll]
  | x :: xs, y :: ys => by simp [equalAll, equal_iff_eq x y, equalAll_iff_eq xs ys]

end

instance : DecidableEq SExpr := fun x y => decidable_of_iff _ (equal_iff_eq x y)

end SExpr

/-! ## Nodes -/

/-- An s-expression with an identity. -/
structure Node where
  /-- The number of the node. -/
  id : Nat
  expr : SExpr
deriving DecidableEq, Repr

/-- Whether two handles refer to the same node. -/
def Node.same (x y : Node) : Bool := x.id == y.id

end SmtEncoding
