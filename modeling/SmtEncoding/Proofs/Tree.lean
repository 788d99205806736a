import SmtEncoding.Proofs.Upkeep
import SmtEncoding.Proofs.Value

/-!
# Trees

A `Tree` shows how an object is built: which operation built it, and from which operands.  Formulas
and terms have trees (`Expr.tree`, `Term.tree`), in which a literal that is not positive is the
negation of its variable, a double is a rational, and of the declared types only those are left that
choose between operations on whole numbers and on rationals.

`Tree.postorder` lists the nodes of a tree, operands first.  Not every node is built anew: a
variable is built once and then known (`introduced`).
-/

namespace SmtEncoding

variable {V W : Type}

/-! ## Nodes -/

/-- What a node of a tree is, apart from its operands.  Variables are of type `V`. -/
inductive Shape (V : Type) where
  | boolConstant (value : Bool)
  | var (sort : SolverSort) (v : V)
  | not
  | and
  | or
  | implies
  | iff
  | intConstant (value : Int)
  | rationalConstant (value : Rat)
  | function (f : FunctionKind) (sort : SolverSort)
  | compare (comparison : Comparison) (sort : SolverSort)
  /-- Nodes of this kind are not built. -/
  | refused (kind : NodeKind)
deriving DecidableEq, Repr

/-- The shape with other variables. -/
def Shape.map (φ : V → W) : Shape V → Shape W
  | boolConstant value => .boolConstant value
  | var sort v => .var sort (φ v)
  | not => .not
  | and => .and
  | or => .or
  | implies => .implies
  | iff => .iff
  | intConstant n => .intConstant n
  | rationalConstant q => .rationalConstant q
  | function f sort => .function f sort
  | compare c sort => .compare c sort
  | refused kind => .refused kind

/-- A tree over variables of type `V`. -/
inductive Tree (V : Type) where
  | node (shape : Shape V) (operands : List (Tree V))
deriving Repr

namespace Tree

mutual

/-- The tree with other variables. -/
def map (φ : V → W) : Tree V → Tree W
  | node shape operands => .node (shape.map φ) (mapAll φ operands)

/-- The trees with other variables. -/
def mapAll (φ : V → W) : List (Tree V) → List (Tree W)
  | [] => []
  | t :: ts => map φ t :: mapAll φ ts

end

mutual

/-- The nodes of a tree, each as the tree below it, operands first. -/
def postorder : Tree V → List (Tree V)
  | node shape operands => postorderAll operands ++ [node shape operands]

/-- The nodes of trees, one tree after another. -/
def postorderAll : List (Tree V) → List (Tree V)
  | [] => []
  | t :: ts => postorder t ++ postorderAll ts

end

theorem postorder_unary (shape : Shape V) (t : Tree V) :
    (node shape [t]).postorder = t.postorder ++ [node shape [t]] := by
  rw [postorder, postorderAll, postorderAll, List.append_nil]

theorem postorder_binary (shape : Shape V) (t u : Tree V) :
    (node shape [t, u]).postorder = t.postorder ++ (u.postorder ++ [node shape [t, u]]) := by
  rw [postorder, postorderAll, postorderAll, postorderAll, List.append_nil, List.append_assoc]

/-- The variable of a node, if it is one. -/
def var? : Tree V → Option V
  | node (.var _ v) _ => some v
  | _ => none

/-- The nodes that are built if the given variables are known: every node but a variable that is
known or occurs before. -/
def introduced [DecidableEq V] (known : List V) : List (Tree V) → List (Tree V)
  | [] => []
  | t :: ts =>
    if t.var?.any (· ∈ known) then introduced known ts
    else t :: introduced (known ++ t.var?.toList) ts

/-- The variables that are known when the nodes are built. -/
def met [DecidableEq V] (known : List V) (nodes : List (Tree V)) : List V :=
  known ++ (introduced known nodes).filterMap var?

section Introduced

variable [DecidableEq V] {known : List V} {t : Tree V}

/-- A known variable is not built. -/
theorem introduced_known {v : V} (ht : t.var? = some v) (hv : v ∈ known) (ts : List (Tree V)) :
    introduced known (t :: ts) = introduced known ts := by
  rw [introduced, ht, Option.any_some, if_pos (decide_eq_true hv)]

/-- A node that is not known is built, and known from there on. -/
theorem introduced_new (ht : ∀ v, t.var? = some v → v ∉ known) (ts : List (Tree V)) :
    introduced known (t :: ts) = t :: introduced (known ++ t.var?.toList) ts := by
  rw [introduced, if_neg]
  cases hvar : t.var? with
  | none => exact nofun
  | some v => simpa using ht v hvar

/-- A known variable adds nothing. -/
theorem met_known {v : V} (ht : t.var? = some v) (hv : v ∈ known) (ts : List (Tree V)) :
    met known (t :: ts) = met known ts := by
  rw [met, met, introduced_known ht hv]

theorem met_new (ht : ∀ v, t.var? = some v → v ∉ known) (ts : List (Tree V)) :
    met known (t :: ts) = met (known ++ t.var?.toList) ts := by
  rw [met, met, introduced_new ht, List.append_assoc, List.filterMap_cons]
  cases t.var? <;> rfl

/-- What is built behind other nodes. -/
theorem introduced_append (known : List V) (ts us : List (Tree V)) :
    introduced known (ts ++ us) = introduced known ts ++ introduced (met known ts) us := by
  induction ts generalizing known with
  | nil =>
    rw [met, introduced, List.filterMap_nil, List.append_nil, List.nil_append, List.nil_append]
  | cons t ts ih =>
    by_cases ht : ∀ v, t.var? = some v → v ∉ known
    · rw [List.cons_append, introduced_new ht, introduced_new ht, met_new ht, ih, List.cons_append]
    · push Not at ht
      obtain ⟨v, ht, hv⟩ := ht
      rw [List.cons_append, introduced_known ht hv, introduced_known ht hv, met_known ht hv, ih]

/-- What the first nodes make known is known to those that come after them. -/
theorem met_append (known : List V) (ts us : List (Tree V)) :
    met known (ts ++ us) = met (met known ts) us := by
  rw [met, introduced_append, List.filterMap_append, ← List.append_assoc]
  rfl

end Introduced

end Tree

/-! ## Trees of formulas -/

/-- The tree of a constant.  Only finite doubles are built. -/
def Constant.tree : Constant → Tree Variable
  | integer n => .node (.intConstant n) []
  | double x => .node (.rationalConstant x.value) []

namespace Term

mutual

/-- The tree of a term. -/
def tree : Term → Tree Variable
  | constant c => c.tree
  | var v => .node (.var v.type.sort v) []
  | app f args type => .node (.function f type.sort) (trees args)

/-- The trees of terms. -/
def trees : List Term → List (Tree Variable)
  | [] => []
  | t :: ts => tree t :: trees ts

end

/-- Two terms are compared as rationals as soon as one of them is a double. -/
def comparedAs (l r : Term) : SolverSort :=
  if l.type = .double ∨ r.type = .double then .real else .int

end Term

namespace Expr

mutual

/-- The tree of a formula.  Counting connectives and quantifiers are not built. -/
def tree : Expr → Tree Variable
  | constant value => .node (.boolConstant value) []
  | not e => .node .not [tree e]
  | and es => .node .and (trees es)
  | or es => .node .or (trees es)
  | implies l r => .node .implies [tree l, tree r]
  | iff l r => .node .iff [tree l, tree r]
  | literal v true => .node (.var .bool v) []
  | literal v false => .node .not [.node (.var .bool v) []]
  | compare c l r => .node (.compare c (l.comparedAs r)) [l.tree, r.tree]
  | atLeast _ _ => .node (.refused .atLeast) []
  | atMost _ _ => .node (.refused .atMost) []
  | between _ _ _ => .node (.refused .between) []
  | choose _ _ => .node (.refused .choose) []
  | exist _ _ => .node (.refused .exist) []
  | forAll _ _ => .node (.refused .forAll) []

/-- The trees of formulas. -/
def trees : List Expr → List (Tree Variable)
  | [] => []
  | e :: es => tree e :: trees es

end

end Expr

end SmtEncoding
