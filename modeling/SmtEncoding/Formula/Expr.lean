import SmtEncoding.Formula.Term

/-!
# Formulas

A formula is built from constants, literals and comparisons of terms by connectives, counting
connectives and quantifiers.  Counting connectives and quantifiers have a text and a kind like
every node, but no encoding.

`Expr.text` writes a formula in prefix form and `Expr.kind` names the kind of its outermost node.
`Expr.equal` is equality of trees in which double constants are compared as numbers.
-/

namespace SmtEncoding

/-! ## Comparisons -/

/-- A predicate that compares two terms. -/
inductive Comparison where
  | lessThan
  | greaterThan
  | lessEqual
  | greaterEqual
  | equals
deriving DecidableEq, Repr

namespace Comparison

/-- The sign of a comparison. -/
def symbol : Comparison → String
  | lessThan => "<"
  | greaterThan => ">"
  | lessEqual => "<="
  | greaterEqual => ">="
  | equals => "="

/-- The name of a comparison. -/
def name : Comparison → String
  | lessThan => "LessThan"
  | greaterThan => "GreaterThan"
  | lessEqual => "LessEqual"
  | greaterEqual => "GreaterEqual"
  | equals => "Equals"

end Comparison

/-! ## Node kinds -/

/-- The kind of a formula node. -/
inductive NodeKind where
  | constant (value : Bool)
  | not
  | and
  | or
  | implies
  | iff
  | literal
  | comparison (comparison : Comparison)
  | atLeast
  | atMost
  | between
  | choose
  | exist
  | forAll
deriving DecidableEq, Repr

/-- The name of a node kind. -/
def NodeKind.name : NodeKind → String
  | constant true => "True"
  | constant false => "False"
  | not => "Not"
  | and => "And"
  | or => "Or"
  | implies => "Implies"
  | iff => "BiImplies"
  | literal => "Literal"
  | comparison c => c.name
  | atLeast => "AtLeast"
  | atMost => "AtMost"
  | between => "Between"
  | choose => "Choose"
  | exist => "Exists"
  | forAll => "ForAll"

/-! ## Formulas -/

/-- A formula. -/
inductive Expr where
  | constant (value : Bool)
  | not (operand : Expr)
  | and (operands : List Expr)
  | or (operands : List Expr)
  | implies (left right : Expr)
  | iff (left right : Expr)
  /-- A variable read as a truth value, or its negation. -/
  | literal (v : Variable) (positive : Bool)
  | compare (comparison : Comparison) (left right : Term)
  /-- At least `bound` of the operands hold. -/
  | atLeast (bound : Nat) (operands : List Expr)
  /-- At most `bound` of the operands hold. -/
  | atMost (bound : Nat) (operands : List Expr)
  /-- At least `least` and at most `most` of the operands hold. -/
  | between (least most : Nat) (operands : List Expr)
  /-- Exactly `bound` of the operands hold. -/
  | choose (bound : Nat) (operands : List Expr)
  /-- Some value of the variable satisfies the body. -/
  | exist (v : Variable) (body : Expr)
  /-- Every value of the variable satisfies the body. -/
  | forAll (v : Variable) (body : Expr)
deriving Repr

namespace Expr

/-- The kind of the outermost node. -/
def kind : Expr → NodeKind
  | constant value => .constant value
  | not _ => .not
  | and _ => .and
  | or _ => .or
  | implies _ _ => .implies
  | iff _ _ => .iff
  | literal _ _ => .literal
  | compare c _ _ => .comparison c
  | atLeast _ _ => .atLeast
  | atMost _ _ => .atMost
  | between _ _ _ => .between
  | choose _ _ => .choose
  | exist _ _ => .exist
  | forAll _ _ => .forAll

mutual

/-- The text of a formula. -/
def text : Expr → String
  | constant true => "true"
  | constant false => "false"
  | not e => applicationText "not" [text e]
  | and es => applicationText "and" (texts es)
  | or es => applicationText "or" (texts es)
  | implies l r => applicationText "=>" [text l, text r]
  | iff l r => applicationText "=" [text l, text r]
  | literal v true => v.name
  | literal v false => applicationText "not" [v.name]
  | compare c l r => applicationText c.symbol [l.text, r.text]
  | atLeast n es => applicationText "at-least" (toString n :: texts es)
  | atMost n es => applicationText "at-most" (toString n :: texts es)
  | between m n es => applicationText "between" (toString m :: toString n :: texts es)
  | choose n es => applicationText "choose" (toString n :: texts es)
  | exist v e => applicationText "exists" [v.name, text e]
  | forAll v e => applicationText "forall" [v.name, text e]

/-- The texts of formulas. -/
def texts : List Expr → List String
  | [] => []
  | e :: es => text e :: texts es

end

mutual

/-- Equality of formulas, with double constants compared as numbers. -/
def equal : Expr → Expr → Bool
  | constant a, constant b => a == b
  | not d, not e => equal d e
  | and ds, and es => equalAll ds es
  | or ds, or es => equalAll ds es
  | implies a b, implies c d => equal a c && equal b d
  | iff a b, iff c d => equal a c && equal b d
  | literal v p, literal w q => v == w && p == q
  | compare c a b, compare d s t => c == d && a == s && b == t
  | atLeast m ds, atLeast n es => m == n && equalAll ds es
  | atMost m ds, atMost n es => m == n && equalAll ds es
  | between k l ds, between m n es => k == m && l == n && equalAll ds es
  | choose m ds, choose n es => m == n && equalAll ds es
  | exist v d, exist w e => v == w && equal d e
  | forAll v d, forAll w e => v == w && equal d e
  | _, _ => false

/-- Equality of lists of formulas, with double constants compared as numbers. -/
def equalAll : List Expr → List Expr → Bool
  | [], [] => true
  | d :: ds, e :: es => equal d e && equalAll ds es
  | _, _ => false

end

instance : BEq Expr := ⟨equal⟩

end Expr

/-! ## Tests -/

section Tests

/-- The variable of the tests. -/
def testVariable : Variable := ⟨"x", .bool⟩

example : (Expr.or []).text = "(or)" := by decide
example : (Expr.implies (.literal testVariable false) (.between 1 2 [.constant true])).text =
    "(=> (not x) (between 1 2 true))" := by decide +kernel
example : (Expr.forAll testVariable (.constant false)).kind.name = "ForAll" := by decide
/-- The zeros are equal, and not-a-number is not equal to itself. -/
example : (Term.constant (.double ⟨0⟩) == .constant (.double ⟨0x8000000000000000⟩)) = true := by
  decide
example : (Term.constant (.double ⟨0x7ff8000000000000⟩) ==
    .constant (.double ⟨0x7ff8000000000000⟩)) = false := by decide

end Tests

end SmtEncoding
