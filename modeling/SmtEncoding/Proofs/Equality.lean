import SmtEncoding.Proofs.Verdict
import SmtEncoding.SmtLib.Backend

/-!
# Equal formulas

Equality of formulas compares double constants as numbers, so it is not identity: the two zeros are
equal, and a formula with not-a-number in it is not equal to itself.  Equal formulas are those that
are built alike from equal constants (`Expr.alike_of_equal`).

Equal constants have the same exact value.  Where they have none they are the same infinity, and so
is the error that carries it.  Hence equal terms and equal formulas are encoded by one and the same
action (`Term.Alike.encodeTerm_eq`, `Expr.Alike.encode_eq`), whatever the backend and whatever the
state of the encoder (`equal_encoded_alike`).
-/

namespace SmtEncoding

/-! ## Equal constants -/

namespace Double

variable {x y : Double}

/-- Equal doubles are the same one or two zeros. -/
theorem eq_or_isZero_of_equal (h : x.equal y = true) :
    x = y ∨ x.isZero = true ∧ y.isZero = true := by
  simp only [equal, Bool.and_eq_true, Bool.or_eq_true, beq_iff_eq] at h
  obtain ⟨_, hbits | hzero⟩ := h
  · left
    cases x
    cases y
    simpa using hbits
  · exact .inr hzero

theorem toRat?_of_isZero (h : x.isZero = true) : x.toRat? = some 0 := by
  obtain ⟨hexponent, hfraction⟩ := of_decide_eq_true h
  have hfinite : x.isFinite = true := by
    simp [isFinite, hexponent, specialExponent]
  have hsignificand : x.significand = 0 := by
    simp [significand, hexponent, hfraction]
  simp [toRat?, hfinite, hsignificand]

end Double

namespace Constant

/-- Equal constants are the same one or two zeros. -/
theorem eq_or_zeros_of_equal {c d : Constant} (h : c.equal d = true) :
    c = d ∨ ∃ x y : Double, c = .double x ∧ d = .double y ∧ x.isZero = true ∧ y.isZero = true := by
  cases c with
  | integer m =>
    cases d with
    | integer n =>
      simp only [equal, beq_iff_eq] at h
      exact .inl (congrArg integer h)
    | double y => cases h
  | double x =>
    cases d with
    | integer n => cases h
    | double y =>
      rcases Double.eq_or_isZero_of_equal h with rfl | ⟨hx, hy⟩
      · exact .inl rfl
      · exact .inr ⟨x, y, rfl, rfl, hx, hy⟩

theorem type_eq_of_equal {c d : Constant} (h : c.equal d = true) : c.type = d.type := by
  rcases eq_or_zeros_of_equal h with rfl | ⟨x, y, rfl, rfl, _, _⟩
  · rfl
  · rfl

end Constant

/-! ## Formulas that are built alike -/

mutual

/-- Terms that are built alike from equal constants. -/
inductive Term.Alike : Term → Term → Prop where
  | constant {c d : Constant} : c.equal d = true → Term.Alike (.constant c) (.constant d)
  | var (v : Variable) : Term.Alike (.var v) (.var v)
  | app (f : FunctionKind) {as bs : List Term} (type : ValueType) : Term.AlikeAll as bs →
    Term.Alike (.app f as type) (.app f bs type)

/-- Terms that are alike one by one. -/
inductive Term.AlikeAll : List Term → List Term → Prop where
  | nil : Term.AlikeAll [] []
  | cons {a b : Term} {as bs : List Term} : Term.Alike a b → Term.AlikeAll as bs →
    Term.AlikeAll (a :: as) (b :: bs)

end

mutual

/-- Formulas that are built alike from equal constants. -/
inductive Expr.Alike : Expr → Expr → Prop where
  | constant (value : Bool) : Expr.Alike (.constant value) (.constant value)
  | not {d e : Expr} : Expr.Alike d e → Expr.Alike (.not d) (.not e)
  | and {ds es : List Expr} : Expr.AlikeAll ds es → Expr.Alike (.and ds) (.and es)
  | or {ds es : List Expr} : Expr.AlikeAll ds es → Expr.Alike (.or ds) (.or es)
  | implies {a b c d : Expr} : Expr.Alike a c → Expr.Alike b d →
    Expr.Alike (.implies a b) (.implies c d)
  | iff {a b c d : Expr} : Expr.Alike a c → Expr.Alike b d → Expr.Alike (.iff a b) (.iff c d)
  | literal (v : Variable) (positive : Bool) :
    Expr.Alike (.literal v positive) (.literal v positive)
  | compare (c : Comparison) {a b s t : Term} : Term.Alike a s → Term.Alike b t →
    Expr.Alike (.compare c a b) (.compare c s t)
  | atLeast (n : Nat) {ds es : List Expr} : Expr.AlikeAll ds es →
    Expr.Alike (.atLeast n ds) (.atLeast n es)
  | atMost (n : Nat) {ds es : List Expr} : Expr.AlikeAll ds es →
    Expr.Alike (.atMost n ds) (.atMost n es)
  | between (m n : Nat) {ds es : List Expr} : Expr.AlikeAll ds es →
    Expr.Alike (.between m n ds) (.between m n es)
  | choose (n : Nat) {ds es : List Expr} : Expr.AlikeAll ds es →
    Expr.Alike (.choose n ds) (.choose n es)
  | exist (v : Variable) {d e : Expr} : Expr.Alike d e → Expr.Alike (.exist v d) (.exist v e)
  | forAll (v : Variable) {d e : Expr} : Expr.Alike d e → Expr.Alike (.forAll v d) (.forAll v e)

/-- Formulas that are alike one by one. -/
inductive Expr.AlikeAll : List Expr → List Expr → Prop where
  | nil : Expr.AlikeAll [] []
  | cons {d e : Expr} {ds es : List Expr} : Expr.Alike d e → Expr.AlikeAll ds es →
    Expr.AlikeAll (d :: ds) (e :: es)

end

/-! ### Equality gives the rules

Trees with different outermost constructors are not equal, as equality computes to false on them.
So only pairs with the same one are left to look at. -/

mutual

/-- Equal terms are built alike. -/
theorem Term.alike_of_equal {s t : Term} (h : s.equal t = true) : s.Alike t := by
  match s, t, h with
  | .constant c, .constant d, h =>
    simp only [Term.equal] at h
    exact .constant h
  | .var v, .var w, h =>
    simp only [Term.equal, beq_iff_eq] at h
    subst h
    exact .var v
  | .app f as type, .app g bs type', h =>
    simp only [Term.equal, Bool.and_eq_true, beq_iff_eq] at h
    obtain ⟨⟨rfl, has⟩, rfl⟩ := h
    exact .app f type (Term.alikeAll_of_equalAll has)

theorem Term.alikeAll_of_equalAll {ss ts : List Term} (h : Term.equalAll ss ts = true) :
    Term.AlikeAll ss ts := by
  match ss, ts, h with
  | [], [], _ => exact .nil
  | s :: ss, t :: ts, h =>
    simp only [Term.equalAll, Bool.and_eq_true] at h
    exact .cons (Term.alike_of_equal h.1) (Term.alikeAll_of_equalAll h.2)

end

mutual

/-- Equal formulas are built alike. -/
theorem Expr.alike_of_equal {x y : Expr} (h : x.equal y = true) : x.Alike y := by
  match x, y, h with
  | .constant a, .constant b, h =>
    simp only [Expr.equal, beq_iff_eq] at h
    subst h
    exact .constant a
  | .not d, .not e, h =>
    simp only [Expr.equal] at h
    exact .not (Expr.alike_of_equal h)
  | .and ds, .and es, h =>
    simp only [Expr.equal] at h
    exact .and (Expr.alikeAll_of_equalAll h)
  | .or ds, .or es, h =>
    simp only [Expr.equal] at h
    exact .or (Expr.alikeAll_of_equalAll h)
  | .implies a b, .implies c d, h =>
    simp only [Expr.equal, Bool.and_eq_true] at h
    exact .implies (Expr.alike_of_equal h.1) (Expr.alike_of_equal h.2)
  | .iff a b, .iff c d, h =>
    simp only [Expr.equal, Bool.and_eq_true] at h
    exact .iff (Expr.alike_of_equal h.1) (Expr.alike_of_equal h.2)
  | .literal v p, .literal w q, h =>
    simp only [Expr.equal, Bool.and_eq_true, beq_iff_eq] at h
    obtain ⟨rfl, rfl⟩ := h
    exact .literal v p
  | .compare c a b, .compare d s t, h =>
    simp only [Expr.equal, Bool.and_eq_true, beq_iff_eq] at h
    obtain ⟨⟨rfl, ha⟩, hb⟩ := h
    exact .compare c (Term.alike_of_equal ha) (Term.alike_of_equal hb)
  | .atLeast m ds, .atLeast n es, h =>
    simp only [Expr.equal, Bool.and_eq_true, beq_iff_eq] at h
    obtain ⟨rfl, hes⟩ := h
    exact .atLeast m (Expr.alikeAll_of_equalAll hes)
  | .atMost m ds, .atMost n es, h =>
    simp only [Expr.equal, Bool.and_eq_true, beq_iff_eq] at h
    obtain ⟨rfl, hes⟩ := h
    exact .atMost m (Expr.alikeAll_of_equalAll hes)
  | .between k l ds, .between m n es, h =>
    simp only [Expr.equal, Bool.and_eq_true, beq_iff_eq] at h
    obtain ⟨⟨rfl, rfl⟩, hes⟩ := h
    exact .between k l (Expr.alikeAll_of_equalAll hes)
  | .choose m ds, .choose n es, h =>
    simp only [Expr.equal, Bool.and_eq_true, beq_iff_eq] at h
    obtain ⟨rfl, hes⟩ := h
    exact .choose m (Expr.alikeAll_of_equalAll hes)
  | .exist v d, .exist w e, h =>
    simp only [Expr.equal, Bool.and_eq_true, beq_iff_eq] at h
    obtain ⟨rfl, he⟩ := h
    exact .exist v (Expr.alike_of_equal he)
  | .forAll v d, .forAll w e, h =>
    simp only [Expr.equal, Bool.and_eq_true, beq_iff_eq] at h
    obtain ⟨rfl, he⟩ := h
    exact .forAll v (Expr.alike_of_equal he)

theorem Expr.alikeAll_of_equalAll {xs ys : List Expr} (h : Expr.equalAll xs ys = true) :
    Expr.AlikeAll xs ys := by
  match xs, ys, h with
  | [], [], _ => exact .nil
  | x :: xs, y :: ys, h =>
    simp only [Expr.equalAll, Bool.and_eq_true] at h
    exact .cons (Expr.alike_of_equal h.1) (Expr.alikeAll_of_equalAll h.2)

end

/-! ## Alike formulas are encoded alike -/

variable {B : Backend}

/-- Equal constants have one exact value, or they are one constant. -/
theorem Encoder.encodeConstant_eq {c d : Constant} (h : c.equal d = true) :
    (encodeConstant c : Action (Encoder B) (Numeral B.Obj)) = encodeConstant d := by
  rcases Constant.eq_or_zeros_of_equal h with rfl | ⟨x, y, rfl, rfl, hx, hy⟩
  · rfl
  · simp only [encodeConstant, Double.toRat?_of_isZero hx, Double.toRat?_of_isZero hy]

mutual

theorem Term.Alike.encodeTerm_eq : ∀ {s t : Term}, s.Alike t →
    (Encoder.encodeTerm s : Action (Encoder B) (Numeral B.Obj)) = Encoder.encodeTerm t
  | _, _, .constant h => by
    simp only [Encoder.encodeTerm]
    exact Encoder.encodeConstant_eq h
  | _, _, .var v => rfl
  | _, _, .app f type has => by
    simp only [Encoder.encodeTerm, has.encodeTerms_eq]

theorem Term.AlikeAll.encodeTerms_eq : ∀ {ss ts : List Term}, Term.AlikeAll ss ts →
    (Encoder.encodeTerms ss : Action (Encoder B) (List (Numeral B.Obj))) = Encoder.encodeTerms ts
  | _, _, .nil => rfl
  | _, _, .cons ht hts => by
    simp only [Encoder.encodeTerms, ht.encodeTerm_eq, hts.encodeTerms_eq]

end

mutual

/-- Alike terms have subterms of the same types, in the same order. -/
theorem Term.Alike.types_eq : ∀ {s t : Term}, s.Alike t →
    s.subterms.map Term.type = t.subterms.map Term.type
  | _, _, .constant h => by
    simp only [Term.subterms, List.map_cons, List.map_nil, Term.type, Constant.type_eq_of_equal h]
  | _, _, .var v => rfl
  | _, _, .app f type has => by
    simp only [Term.subterms, List.map_cons, Term.type, has.types_eq]

theorem Term.AlikeAll.types_eq : ∀ {ss ts : List Term}, Term.AlikeAll ss ts →
    (Term.subtermsAll ss).map Term.type = (Term.subtermsAll ts).map Term.type
  | _, _, .nil => rfl
  | _, _, .cons ht hts => by
    simp only [Term.subtermsAll, List.map_append, ht.types_eq, hts.types_eq]

end

/-- A check looks at nothing but types. -/
theorem Term.Alike.checkTerm_eq {s t : Term} (h : s.Alike t) :
    (Encoder.checkTerm s : Action (Encoder B) Unit) = Encoder.checkTerm t := by
  have hall : s.subterms.all (·.type ≠ .double) = t.subterms.all (·.type ≠ .double) := by
    have htypes := congrArg (List.all · (· ≠ .double)) h.types_eq
    rw [List.all_map, List.all_map] at htypes
    exact htypes
  have hcheck : ∀ c : Capabilities, c.checkTerm s = c.checkTerm t := by
    intro c
    rw [Capabilities.checkTerm, Capabilities.checkTerm, Capabilities.checkAll_eq,
      Capabilities.checkAll_eq, hall]
  simp only [Encoder.checkTerm, hcheck]

mutual

theorem Expr.Alike.encode_eq : ∀ {x y : Expr}, x.Alike y →
    (Encoder.encode x : Action (Encoder B) (B.Obj .bool)) = Encoder.encode y
  | _, _, .constant value => rfl
  | _, _, .not h => by
    simp only [Encoder.encode, h.encode_eq]
  | _, _, .and h => by
    simp only [Encoder.encode, h.encodeAll_eq]
  | _, _, .or h => by
    simp only [Encoder.encode, h.encodeAll_eq]
  | _, _, .implies hl hr => by
    simp only [Encoder.encode, hl.encode_eq, hr.encode_eq]
  | _, _, .iff hl hr => by
    simp only [Encoder.encode, hl.encode_eq, hr.encode_eq]
  | _, _, .literal v positive => rfl
  | _, _, .compare c hl hr => by
    simp only [Encoder.encode, Encoder.encodeComparison, hl.checkTerm_eq, hr.checkTerm_eq,
      hl.encodeTerm_eq, hr.encodeTerm_eq]
  -- The others are refused before anything below them is looked at.
  | _, _, .atLeast _ _ => by
    simp only [Encoder.encode]
  | _, _, .atMost _ _ => by
    simp only [Encoder.encode]
  | _, _, .between _ _ _ => by
    simp only [Encoder.encode]
  | _, _, .choose _ _ => by
    simp only [Encoder.encode]
  | _, _, .exist _ _ => by
    simp only [Encoder.encode]
  | _, _, .forAll _ _ => by
    simp only [Encoder.encode]

theorem Expr.AlikeAll.encodeAll_eq : ∀ {xs ys : List Expr}, Expr.AlikeAll xs ys →
    (Encoder.encodeAll xs : Action (Encoder B) (List (B.Obj .bool))) = Encoder.encodeAll ys
  | _, _, .nil => rfl
  | _, _, .cons hx hxs => by
    simp only [Encoder.encodeAll, hx.encode_eq, hxs.encodeAll_eq]

end

/-- Equal formulas, and equal terms, are encoded alike on whatever backend and from whatever state:
with the same object or the same error, the same state of the encoder after it, and the same
events. -/
theorem equal_encoded_alike (B : Backend) :
    (∀ x y : Expr, (x == y) = true → ∀ e : Encoder B,
      (Encoder.encode x).run e = (Encoder.encode y).run e) ∧
    ∀ s t : Term, (s == t) = true → ∀ e : Encoder B,
      (Encoder.encodeTerm s).run e = (Encoder.encodeTerm t).run e := by
  refine ⟨fun x y hxy e => ?_, fun s t hst e => ?_⟩
  · have halike : x.Alike y := Expr.alike_of_equal hxy
    rw [halike.encode_eq]
  · have halike : s.Alike t := Term.alike_of_equal hst
    rw [halike.encodeTerm_eq]

/-- A bound on a sum with a zero in it. -/
def boundedSum (zero : Double) : Expr :=
  .compare .lessEqual (.app .add [.constant (.double zero), .var ⟨"x", .double⟩] .double)
    (.constant (.integer 1))

/-- The two zeros are different doubles, and the sums over them have one encoding. -/
theorem equal_encoded_alike_zeros :
    let plus : Double := ⟨0⟩
    let minus : Double := ⟨0x8000000000000000⟩
    let e : Encoder SmtLib.backend := .new (.empty {} 0) {}
    plus ≠ minus ∧ (boundedSum plus == boundedSum minus) = true ∧
    (Encoder.encode (boundedSum plus)).run e = (Encoder.encode (boundedSum minus)).run e ∧
    ((Encoder.encode (boundedSum minus)).run e).value.toOption.map Node.expr =
      some (.apply "<=" [.apply "+" [.atom "0.0", .atom "x"], .apply "to_real" [.atom "1"]]) := by
  intro plus minus e
  have hequal : (boundedSum plus == boundedSum minus) = true := by decide
  exact ⟨by decide, hequal, (equal_encoded_alike SmtLib.backend).1 _ _ hequal e, by decide +kernel⟩

end SmtEncoding
