import SmtEncoding.Proofs.Equality

/-!
# Canonical zeros

Equality of formulas compares double constants as numbers, and two doubles are the same number if
they are identical or both zero.  So every formula has a canonical form, in which each zero is the
positive one (`Expr.canonical`).  Formulas are equal exactly if their canonical forms are identical
and neither has a constant that is not a number (`Expr.equal_iff`), and so for terms.

Equality is therefore symmetric and transitive, and a formula is equal to itself exactly if each of
its constants is a number (`equality_partial`).
-/

namespace SmtEncoding

/-! ## Constants -/

/-- None of the doubles is not-a-number. -/
def Numbers (xs : List Double) : Prop := ∀ x ∈ xs, x.isNaN = false

theorem numbers_append {xs ys : List Double} : Numbers (xs ++ ys) ↔ Numbers xs ∧ Numbers ys :=
  List.forall_mem_append

namespace Double

variable {x y : Double}

/-- The double, with the positive zero in place of either zero. -/
def canonical (x : Double) : Double := if x.isZero then ⟨0⟩ else x

theorem canonical_of_isZero (h : x.isZero = true) : x.canonical = ⟨0⟩ := if_pos h

/-- A zero has its canonical form with zeros only. -/
theorem isZero_of_canonical_eq (h : x.canonical = y.canonical) (hx : x.isZero = true) :
    y.isZero = true := by
  by_contra hy
  rw [canonical_of_isZero hx, canonical, if_neg hy] at h
  subst h
  exact hy (by decide)

/-- Doubles are equal if both are numbers and only the signs of zeros tell them apart. -/
theorem equal_iff :
    x.equal y = true ↔ x.isNaN = false ∧ y.isNaN = false ∧ x.canonical = y.canonical := by
  constructor
  · intro h
    have hnumbers : x.isNaN = false ∧ y.isNaN = false := by
      simp only [equal, Bool.and_eq_true, Bool.not_eq_true'] at h
      exact h.1
    refine ⟨hnumbers.1, hnumbers.2, ?_⟩
    rcases eq_or_isZero_of_equal h with rfl | ⟨hx, hy⟩
    · rfl
    · rw [canonical_of_isZero hx, canonical_of_isZero hy]
  · rintro ⟨hx, hy, h⟩
    have hsame : x = y ∨ x.isZero = true ∧ y.isZero = true := by
      by_cases hzero : x.isZero = true
      · exact .inr ⟨hzero, isZero_of_canonical_eq h hzero⟩
      · have hzero' : ¬ y.isZero = true := fun hy => hzero (isZero_of_canonical_eq h.symm hy)
        rw [canonical, if_neg hzero, canonical, if_neg hzero'] at h
        exact .inl h
    rw [equal, hx, hy]
    rcases hsame with rfl | ⟨hx, hy⟩
    · simp
    · simp [hx, hy]

end Double

namespace Constant

/-- The double of a constant, if it is one. -/
def doubles : Constant → List Double
  | integer _ => []
  | double x => [x]

/-- The constant, with the positive zero in place of either zero. -/
def canonical : Constant → Constant
  | integer n => .integer n
  | double x => .double x.canonical

theorem equal_iff (c d : Constant) :
    c.equal d = true ↔ Numbers c.doubles ∧ Numbers d.doubles ∧ c.canonical = d.canonical := by
  cases c with
  | integer m =>
    cases d with
    | integer n => simp [equal, doubles, canonical, Numbers]
    | double y => simp [equal, canonical]
  | double x =>
    cases d with
    | integer n => simp [equal, canonical]
    | double y => simp [equal, doubles, canonical, Numbers, Double.equal_iff]

end Constant

/-! ## Terms -/

namespace Term

mutual

/-- The double constants of a term, from left to right. -/
def doubles : Term → List Double
  | constant c => c.doubles
  | var _ => []
  | app _ args _ => doublesAll args

/-- The double constants of terms, from left to right. -/
def doublesAll : List Term → List Double
  | [] => []
  | t :: ts => doubles t ++ doublesAll ts

end

mutual

/-- The term, with the positive zero in place of either zero. -/
def canonical : Term → Term
  | constant c => .constant c.canonical
  | var v => .var v
  | app f args type => .app f (canonicalAll args) type

/-- The terms, with the positive zero in place of either zero. -/
def canonicalAll : List Term → List Term
  | [] => []
  | t :: ts => canonical t :: canonicalAll ts

end

mutual

/-- Terms are equal if their constants are numbers and they have one canonical form. -/
theorem equal_iff : ∀ s t : Term, s.equal t = true ↔
    Numbers s.doubles ∧ Numbers t.doubles ∧ s.canonical = t.canonical
  | .constant c, t => by
    cases t with
    | constant d => simp only [equal, doubles, canonical, constant.injEq, Constant.equal_iff c d]
    | _ => simp [equal, canonical]
  | .var v, t => by
    cases t with
    | var w => simp [equal, doubles, canonical, Numbers]
    | _ => simp [equal, canonical]
  | .app f as type, t => by
    cases t with
    | app g bs type' =>
      simp only [equal, doubles, canonical, app.injEq, Bool.and_eq_true, beq_iff_eq,
        equalAll_iff as bs]
      tauto
    | _ => simp [equal, canonical]

theorem equalAll_iff : ∀ ss ts : List Term, equalAll ss ts = true ↔
    Numbers (doublesAll ss) ∧ Numbers (doublesAll ts) ∧ canonicalAll ss = canonicalAll ts
  | [], [] => by simp [equalAll, doublesAll, Numbers]
  | [], _ :: _ => by simp [equalAll, canonicalAll]
  | _ :: _, [] => by simp [equalAll, canonicalAll]
  | s :: ss, t :: ts => by
    simp only [equalAll, doublesAll, canonicalAll, List.cons.injEq, Bool.and_eq_true,
      numbers_append, equal_iff s t, equalAll_iff ss ts]
    tauto

end

end Term

/-! ## Formulas -/

namespace Expr

mutual

/-- The double constants of a formula, from left to right, wherever they stand. -/
def doubles : Expr → List Double
  | constant _ => []
  | not e => doubles e
  | and es => doublesAll es
  | or es => doublesAll es
  | implies l r => doubles l ++ doubles r
  | iff l r => doubles l ++ doubles r
  | literal _ _ => []
  | compare _ l r => l.doubles ++ r.doubles
  | atLeast _ es => doublesAll es
  | atMost _ es => doublesAll es
  | between _ _ es => doublesAll es
  | choose _ es => doublesAll es
  | exist _ e => doubles e
  | forAll _ e => doubles e

/-- The double constants of formulas, from left to right. -/
def doublesAll : List Expr → List Double
  | [] => []
  | e :: es => doubles e ++ doublesAll es

end

mutual

/-- The formula, with the positive zero in place of either zero. -/
def canonical : Expr → Expr
  | constant value => .constant value
  | not e => .not (canonical e)
  | and es => .and (canonicalAll es)
  | or es => .or (canonicalAll es)
  | implies l r => .implies (canonical l) (canonical r)
  | iff l r => .iff (canonical l) (canonical r)
  | literal v positive => .literal v positive
  | compare c l r => .compare c l.canonical r.canonical
  | atLeast n es => .atLeast n (canonicalAll es)
  | atMost n es => .atMost n (canonicalAll es)
  | between m n es => .between m n (canonicalAll es)
  | choose n es => .choose n (canonicalAll es)
  | exist v e => .exist v (canonical e)
  | forAll v e => .forAll v (canonical e)

/-- The formulas, with the positive zero in place of either zero. -/
def canonicalAll : List Expr → List Expr
  | [] => []
  | e :: es => canonical e :: canonicalAll es

end

/-! ### Kinds

A formula and its canonical form have nodes of one kind at the top.  So formulas with nodes of
different kinds there are neither equal nor of one canonical form, and only pairs with the same
outermost constructor are left to compare. -/

/-- Equal formulas have nodes of one kind at the top. -/
theorem kind_eq_of_equal {x y : Expr} (h : x.equal y = true) : x.kind = y.kind := by
  cases alike_of_equal h <;> rfl

/-- A canonical form has a node of the same kind at the top. -/
theorem kind_canonical (x : Expr) : x.canonical.kind = x.kind := by
  cases x <;> simp only [canonical, kind]

theorem kind_eq_of_canonical_eq {x y : Expr} (h : x.canonical = y.canonical) :
    x.kind = y.kind := by
  rw [← kind_canonical x, h, kind_canonical]

mutual

/-- Formulas are equal if their constants are numbers and they have one canonical form. -/
theorem equal_iff (x y : Expr) : x.equal y = true ↔
    Numbers x.doubles ∧ Numbers y.doubles ∧ x.canonical = y.canonical := by
  by_cases hkind : x.kind = y.kind
  · match x, y, hkind with
    | .constant a, .constant b, _ => simp [equal, doubles, canonical, Numbers]
    | .not d, .not e, _ => simp only [equal, doubles, canonical, not.injEq, equal_iff d e]
    | .and ds, .and es, _ => simp only [equal, doubles, canonical, and.injEq, equalAll_iff ds es]
    | .or ds, .or es, _ => simp only [equal, doubles, canonical, or.injEq, equalAll_iff ds es]
    | .implies a b, .implies c d, _ =>
      simp only [equal, doubles, canonical, implies.injEq, Bool.and_eq_true, numbers_append,
        equal_iff a c, equal_iff b d]
      tauto
    | .iff a b, .iff c d, _ =>
      simp only [equal, doubles, canonical, iff.injEq, Bool.and_eq_true, numbers_append,
        equal_iff a c, equal_iff b d]
      tauto
    | .literal v p, .literal w q, _ => simp [equal, doubles, canonical, Numbers]
    | .compare c a b, .compare d s t, _ =>
      have ha : (a == s) = true ↔ _ := Term.equal_iff a s
      have hb : (b == t) = true ↔ _ := Term.equal_iff b t
      simp only [equal, doubles, canonical, compare.injEq, Bool.and_eq_true, beq_iff_eq,
        numbers_append, ha, hb]
      tauto
    | .atLeast m ds, .atLeast n es, _ =>
      simp only [equal, doubles, canonical, atLeast.injEq, Bool.and_eq_true, beq_iff_eq,
        equalAll_iff ds es]
      tauto
    | .atMost m ds, .atMost n es, _ =>
      simp only [equal, doubles, canonical, atMost.injEq, Bool.and_eq_true, beq_iff_eq,
        equalAll_iff ds es]
      tauto
    | .between k l ds, .between m n es, _ =>
      simp only [equal, doubles, canonical, between.injEq, Bool.and_eq_true, beq_iff_eq,
        equalAll_iff ds es]
      tauto
    | .choose m ds, .choose n es, _ =>
      simp only [equal, doubles, canonical, choose.injEq, Bool.and_eq_true, beq_iff_eq,
        equalAll_iff ds es]
      tauto
    | .exist v d, .exist w e, _ =>
      simp only [equal, doubles, canonical, exist.injEq, Bool.and_eq_true, beq_iff_eq,
        equal_iff d e]
      tauto
    | .forAll v d, .forAll w e, _ =>
      simp only [equal, doubles, canonical, forAll.injEq, Bool.and_eq_true, beq_iff_eq,
        equal_iff d e]
      tauto
  · have hequal : ¬ x.equal y = true := mt kind_eq_of_equal hkind
    have hcanonical : ¬ x.canonical = y.canonical := mt kind_eq_of_canonical_eq hkind
    exact ⟨fun h => absurd h hequal, fun h => absurd h.2.2 hcanonical⟩

theorem equalAll_iff : ∀ xs ys : List Expr, equalAll xs ys = true ↔
    Numbers (doublesAll xs) ∧ Numbers (doublesAll ys) ∧ canonicalAll xs = canonicalAll ys
  | [], [] => by simp [equalAll, doublesAll, Numbers]
  | [], _ :: _ => by simp [equalAll, canonicalAll]
  | _ :: _, [] => by simp [equalAll, canonicalAll]
  | x :: xs, y :: ys => by
    simp only [equalAll, doublesAll, canonicalAll, List.cons.injEq, Bool.and_eq_true,
      numbers_append, equal_iff x y, equalAll_iff xs ys]
    tauto

end

end Expr

/-! ## Equality -/

/-- A relation that compares by images, and only what has a property, is a partial equivalence. -/
theorem partial_of_iff {α β : Type} {r : α → α → Bool} {P : α → Prop} {image : α → β}
    (h : ∀ x y, r x y = true ↔ P x ∧ P y ∧ image x = image y) :
    (∀ x y, r x y = true → r y x = true) ∧
      (∀ x y z, r x y = true → r y z = true → r x z = true) ∧ ∀ x, r x x = true ↔ P x := by
  refine ⟨fun x y hxy => ?_, fun x y z hxy hyz => ?_, fun x => ?_⟩
  · obtain ⟨hx, hy, heq⟩ := (h x y).mp hxy
    exact (h y x).mpr ⟨hy, hx, heq.symm⟩
  · obtain ⟨hx, _, hxy⟩ := (h x y).mp hxy
    obtain ⟨_, hz, hyz⟩ := (h y z).mp hyz
    exact (h x z).mpr ⟨hx, hz, hxy.trans hyz⟩
  · exact ⟨fun hself => ((h x x).mp hself).1, fun hx => (h x x).mpr ⟨hx, hx, rfl⟩⟩

/-- Equality of formulas is symmetric and transitive, and a formula is equal to itself exactly if no
double constant in it is not-a-number, wherever it stands.  The same holds of terms. -/
theorem equality_partial :
    ((∀ x y : Expr, (x == y) = true → (y == x) = true) ∧
      (∀ x y z : Expr, (x == y) = true → (y == z) = true → (x == z) = true) ∧
      ∀ x : Expr, (x == x) = true ↔ ∀ d ∈ x.doubles, d.isNaN = false) ∧
    (∀ s t : Term, (s == t) = true → (t == s) = true) ∧
      (∀ s t u : Term, (s == t) = true → (t == u) = true → (s == u) = true) ∧
      ∀ t : Term, (t == t) = true ↔ ∀ d ∈ t.doubles, d.isNaN = false :=
  ⟨partial_of_iff Expr.equal_iff, partial_of_iff Term.equal_iff⟩

/-- A sum with the given double, below connectives that are not encoded. -/
def deepSum (x : Double) : Expr :=
  .forAll ⟨"n", .integer⟩ (.atLeast 2 [.constant true, .not (.compare .equals
    (.app .add [.var ⟨"n", .integer⟩, .app .multiply [.constant (.double x)] .integer] .double)
    (.constant (.integer 1)))])

/-- A sum with the negative zero is equal to the one with the positive zero, so both are equal to
themselves.  One with not-a-number is not. -/
theorem equality_partial_deep :
    let plus : Double := ⟨0⟩
    let minus : Double := ⟨0x8000000000000000⟩
    let nan : Double := ⟨0x7ff8000000000001⟩
    plus ≠ minus ∧ (deepSum minus == deepSum plus) = true ∧
      (deepSum plus == deepSum minus) = true ∧ (deepSum minus == deepSum minus) = true ∧
      ¬ (deepSum nan == deepSum nan) = true := by
  intro plus minus nan
  obtain ⟨⟨hsymm, htrans, hself⟩, _⟩ := equality_partial
  have hequal : (deepSum minus == deepSum plus) = true := by decide
  have hflipped := hsymm _ _ hequal
  refine ⟨by decide, hequal, hflipped, htrans _ _ _ hequal hflipped, fun h => ?_⟩
  have hnumber : nan.isNaN = false := (hself (deepSum nan)).mp h nan List.mem_cons_self
  exact absurd hnumber (by decide)

end SmtEncoding
