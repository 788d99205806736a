import SmtEncoding.Encoder.Terms

/-!
# The encoding of formulas

A formula is encoded node by node, and nothing is simplified.  Each node is reported before it is
handled, operands come from left to right, and the object of a node is built last.

A comparison first checks, without rationals, that neither side has a double in it, so that it
fails before the backend sees any part of it.  It is built on rationals as soon as one side is a
rational.  Counting connectives and quantifiers are refused.
-/

namespace SmtEncoding.Encoder

variable {B : Backend}

/-- The comparison of two numerals. -/
def compareNumerals (c : Comparison) (l r : Numeral B.Obj) : Action (Encoder B) (B.Obj .bool) := do
  if (l.isRational || r.isRational) && (← get).capabilities.rationals then
    rational (.compare c l r)
  else
    let x ← Action.ofExcept (expectInteger l)
    let y ← Action.ofExcept (expectInteger r)
    core (.intCompare c x y)

/-- Fails if a term has a double in it and the backend has no rationals. -/
def checkTerm (t : Term) : Action (Encoder B) Unit := do
  Action.ofExcept ((← get).capabilities.checkTerm t)

/-- The comparison of two terms. -/
def encodeComparison (c : Comparison) (l r : Term) : Action (Encoder B) (B.Obj .bool) := do
  checkTerm l
  checkTerm r
  let x ← encodeTerm l
  let y ← encodeTerm r
  compareNumerals c x y

/-- A literal. -/
def encodeLiteral (v : Variable) (positive : Bool) : Action (Encoder B) (B.Obj .bool) := do
  let x ← resolveBool (← get).options.createVariables v
  if positive then pure x else core (.not x)

/-- Reports a node and handles it. -/
def visit {α : Type} (kind : NodeKind) (handle : Action (Encoder B) α) : Action (Encoder B) α := do
  Action.note (.encoding kind)
  handle

/-- Refuses a node. -/
def refuse (kind : NodeKind) : Action (Encoder B) (B.Obj .bool) :=
  visit kind (throw (.unsupportedNode kind))

mutual

/-- A formula as a truth value. -/
def encode : Expr → Action (Encoder B) (B.Obj .bool)
  | .constant value => visit (.constant value) (core (.boolConstant value))
  | .not e => visit .not do
    let x ← encode e
    core (.not x)
  | .and es => visit .and do
    let xs ← encodeAll es
    core (.and xs)
  | .or es => visit .or do
    let xs ← encodeAll es
    core (.or xs)
  | .implies l r => visit .implies do
    let x ← encode l
    let y ← encode r
    core (.implies x y)
  | .iff l r => visit .iff do
    let x ← encode l
    let y ← encode r
    core (.iff x y)
  | .literal v positive => visit .literal (encodeLiteral v positive)
  | .compare c l r => visit (.comparison c) (encodeComparison c l r)
  | .atLeast _ _ => refuse .atLeast
  | .atMost _ _ => refuse .atMost
  | .between _ _ _ => refuse .between
  | .choose _ _ => refuse .choose
  | .exist _ _ => refuse .exist
  | .forAll _ _ => refuse .forAll

/-- Formulas as truth values, from left to right. -/
def encodeAll : List Expr → Action (Encoder B) (List (B.Obj .bool))
  | [] => pure []
  | e :: es => do
    let x ← encode e
    let xs ← encodeAll es
    pure (x :: xs)

end

end SmtEncoding.Encoder
