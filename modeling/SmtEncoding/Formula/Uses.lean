import SmtEncoding.Formula.Expr
import SmtEncoding.Solver.Sort

/-!
# Nodes and uses

What is read off a formula from left to right: its nodes in preorder, the variables of its literals,
and its uses, which are its variables with the sort that each is looked up under.  A formula uses
what its nodes use (`Expr.uses_eq_flatMap`).

A term looks up a variable under the sort of its declared type, and a literal looks it up as a truth
value.  So what holds of these sorts holds of all uses (`Expr.forall_uses`).
-/

namespace SmtEncoding

/-! ## Nodes -/

namespace Expr

mutual

/-- The nodes of a formula in preorder, each as the formula below it. -/
def nodes : Expr → List Expr
  | constant value => [constant value]
  | not e => not e :: nodes e
  | and es => and es :: nodesAll es
  | or es => or es :: nodesAll es
  | implies l r => implies l r :: (nodes l ++ nodes r)
  | iff l r => iff l r :: (nodes l ++ nodes r)
  | literal v positive => [literal v positive]
  | compare c l r => [compare c l r]
  | atLeast n es => atLeast n es :: nodesAll es
  | atMost n es => atMost n es :: nodesAll es
  | between m n es => between m n es :: nodesAll es
  | choose n es => choose n es :: nodesAll es
  | exist v e => exist v e :: nodes e
  | forAll v e => forAll v e :: nodes e

/-- The nodes of formulas, one formula after another. -/
def nodesAll : List Expr → List Expr
  | [] => []
  | e :: es => nodes e ++ nodesAll es

end

end Expr

/-! ## Literals -/

mutual

/-- The variables of the literals of a formula, from left to right. -/
def Expr.literals : Expr → List Variable
  | .constant _ => []
  | .not e => e.literals
  | .and es => Expr.literalsAll es
  | .or es => Expr.literalsAll es
  | .implies l r => l.literals ++ r.literals
  | .iff l r => l.literals ++ r.literals
  | .literal v _ => [v]
  | .compare _ _ _ => []
  | .atLeast _ es => Expr.literalsAll es
  | .atMost _ es => Expr.literalsAll es
  | .between _ _ es => Expr.literalsAll es
  | .choose _ es => Expr.literalsAll es
  | .exist _ e => e.literals
  | .forAll _ e => e.literals

/-- The variables of the literals of formulas, from left to right. -/
def Expr.literalsAll : List Expr → List Variable
  | [] => []
  | e :: es => e.literals ++ Expr.literalsAll es

end

/-! ## Uses -/

namespace Term

mutual

/-- The variables of a term from left to right, each with the sort that it is looked up under. -/
def uses : Term → List (Variable × SolverSort)
  | constant _ => []
  | var v => [(v, v.type.sort)]
  | app _ args _ => usesAll args

/-- The uses of terms, from left to right. -/
def usesAll : List Term → List (Variable × SolverSort)
  | [] => []
  | t :: ts => uses t ++ usesAll ts

end

end Term

namespace Expr

mutual

/-- The variables of a formula from left to right, each with the sort that it is looked up under. -/
def uses : Expr → List (Variable × SolverSort)
  | constant _ => []
  | not e => uses e
  | and es => usesAll es
  | or es => usesAll es
  | implies l r => uses l ++ uses r
  | iff l r => uses l ++ uses r
  | literal v _ => [(v, .bool)]
  | compare _ l r => l.uses ++ r.uses
  | atLeast _ es => usesAll es
  | atMost _ es => usesAll es
  | between _ _ es => usesAll es
  | choose _ es => usesAll es
  | exist v e => (v, v.type.sort) :: uses e
  | forAll v e => (v, v.type.sort) :: uses e

/-- The uses of formulas, from left to right. -/
def usesAll : List Expr → List (Variable × SolverSort)
  | [] => []
  | e :: es => uses e ++ usesAll es

end

/-- The variables of a formula from left to right, as often as they occur. -/
def occurrences (e : Expr) : List Variable := e.uses.map Prod.fst

/-- The uses of a node, without those of its operands. -/
def ownUses : Expr → List (Variable × SolverSort)
  | literal v _ => [(v, .bool)]
  | compare _ l r => l.uses ++ r.uses
  | exist v _ => [(v, v.type.sort)]
  | forAll v _ => [(v, v.type.sort)]
  | _ => []

mutual

/-- A formula uses what its nodes use, in preorder. -/
theorem uses_eq_flatMap : ∀ e : Expr, e.uses = e.nodes.flatMap ownUses
  | constant _ => rfl
  | not e => by
    rw [uses, nodes, List.flatMap_cons, ← uses_eq_flatMap e]
    rfl
  | and es | or es | atLeast _ es | atMost _ es | between _ _ es | choose _ es => by
    rw [uses, nodes, List.flatMap_cons, ← usesAll_eq_flatMap es]
    rfl
  | implies l r | iff l r => by
    rw [uses, nodes, List.flatMap_cons, List.flatMap_append, ← uses_eq_flatMap l,
      ← uses_eq_flatMap r]
    rfl
  | literal _ _ => rfl
  | compare _ l r => by
    rw [uses, nodes, List.flatMap_singleton]
    rfl
  | exist _ e | forAll _ e => by
    rw [uses, nodes, List.flatMap_cons, ← uses_eq_flatMap e]
    rfl

theorem usesAll_eq_flatMap : ∀ es : List Expr, usesAll es = (nodesAll es).flatMap ownUses
  | [] => rfl
  | e :: es => by
    rw [usesAll, nodesAll, List.flatMap_append, ← uses_eq_flatMap e, ← usesAll_eq_flatMap es]

end

end Expr

/-! ## Sorts of uses -/

mutual

/-- A term uses a variable under the sort of its declared type. -/
theorem Term.sort_of_uses : ∀ t : Term, ∀ use ∈ t.uses, use.2 = use.1.type.sort
  | .constant _ => by
    simp only [Term.uses]
    exact nofun
  | .var v => by
    simp only [Term.uses]
    exact fun use hu => List.mem_singleton.mp hu ▸ rfl
  | .app _ args _ => by
    simp only [Term.uses]
    exact Term.sort_of_usesAll args

theorem Term.sort_of_usesAll : ∀ ts : List Term, ∀ use ∈ Term.usesAll ts, use.2 = use.1.type.sort
  | [] => by
    simp only [Term.usesAll]
    exact nofun
  | t :: ts => by
    simp only [Term.usesAll]
    exact List.forall_mem_append.mpr ⟨Term.sort_of_uses t, Term.sort_of_usesAll ts⟩

end

variable {R : Variable → SolverSort → Prop}

/-- What holds of every variable under the sort of its declared type holds of the uses of a term. -/
theorem Term.forall_uses (typed : ∀ v : Variable, R v v.type.sort) (t : Term) :
    ∀ use ∈ t.uses, R use.1 use.2 := fun use hu => by
  rw [t.sort_of_uses use hu]
  exact typed use.1

theorem Term.forall_usesAll (typed : ∀ v : Variable, R v v.type.sort) (ts : List Term) :
    ∀ use ∈ Term.usesAll ts, R use.1 use.2 := fun use hu => by
  rw [Term.sort_of_usesAll ts use hu]
  exact typed use.1

mutual

/-- What holds of variables under the sorts of their declared types, and of those of the literals as
truth values, holds of all uses. -/
theorem Expr.forall_uses (typed : ∀ v : Variable, R v v.type.sort) :
    ∀ e : Expr, (∀ v ∈ e.literals, R v .bool) → ∀ use ∈ e.uses, R use.1 use.2
  | .constant _, _ => by
    simp only [Expr.uses]
    exact nofun
  | .not e, h => by
    simp only [Expr.uses, Expr.literals] at h ⊢
    exact Expr.forall_uses typed e h
  | .and es, h | .or es, h | .atLeast _ es, h | .atMost _ es, h | .between _ _ es, h
  | .choose _ es, h => by
    simp only [Expr.uses, Expr.literals] at h ⊢
    exact Expr.forall_usesAll typed es h
  | .implies l r, h | .iff l r, h => by
    simp only [Expr.uses, Expr.literals] at h ⊢
    obtain ⟨hl, hr⟩ := List.forall_mem_append.mp h
    exact List.forall_mem_append.mpr
      ⟨Expr.forall_uses typed l hl, Expr.forall_uses typed r hr⟩
  | .literal v _, h => by
    simp only [Expr.uses, Expr.literals] at h ⊢
    exact fun use hu => List.mem_singleton.mp hu ▸ h v List.mem_cons_self
  | .compare _ l r, _ => by
    simp only [Expr.uses]
    exact List.forall_mem_append.mpr ⟨l.forall_uses typed, r.forall_uses typed⟩
  | .exist v e, h | .forAll v e, h => by
    simp only [Expr.uses, Expr.literals] at h ⊢
    exact List.forall_mem_cons.mpr ⟨typed v, Expr.forall_uses typed e h⟩

theorem Expr.forall_usesAll (typed : ∀ v : Variable, R v v.type.sort) :
    ∀ es : List Expr, (∀ v ∈ Expr.literalsAll es, R v .bool) →
      ∀ use ∈ Expr.usesAll es, R use.1 use.2
  | [], _ => by
    simp only [Expr.usesAll]
    exact nofun
  | e :: es, h => by
    simp only [Expr.usesAll, Expr.literalsAll] at h ⊢
    obtain ⟨he, hes⟩ := List.forall_mem_append.mp h
    exact List.forall_mem_append.mpr
      ⟨Expr.forall_uses typed e he, Expr.forall_usesAll typed es hes⟩

end

/-- Where literals are over truth values, every variable is used under the sort of its declared
type. -/
theorem Expr.sort_of_uses {e : Expr} (h : ∀ v ∈ e.literals, v.type = .bool) :
    ∀ use ∈ e.uses, use.2 = use.1.type.sort :=
  e.forall_uses (R := fun v sort => sort = v.type.sort) (fun _ => rfl) fun v hv => by
    rw [h v hv]
    rfl

end SmtEncoding
