import SmtEncoding.Proofs.Binary64
import SmtEncoding.Proofs.Equality
import SmtEncoding.Proofs.Reading
import SmtEncoding.SmtLib.Backend

/-!
# Literals of numbers

`Writes` says how a rational is written: as digits with `.0`, or as a quotient of two such numbers
in lowest terms, and behind a minus if it is below zero.  What is written so has that rational as
its value (`Writes.value?`), and a minus exactly if it is below zero (`Writes.minus_iff`).
`WritesInt` does the same for whole numbers.

The literals that the backend builds are written so (`writes_realLiteral`, `writesInt_intLiteral`),
and different numbers have different literals (`realLiteral_injective`).  With what IEEE 754 says
of doubles, numeric constants are encoded exactly (`numeric_constants_exact`).
-/

namespace SmtEncoding.SmtLib

/-! ## How numbers are written -/

/-- How a rational is written.  `divisors` are the divisors that a quotient may have. -/
inductive Writes (divisors : Set Nat) : SExpr → Rat → Prop where
  | whole (n : Nat) : Writes divisors (.atom (toString n ++ ".0")) n
  | quotient {n d : Nat} : n.Coprime d → 1 < d → d ∈ divisors →
    Writes divisors (.apply "/" [.atom (toString n ++ ".0"), .atom (toString d ++ ".0")]) (n / d)
  | minus {x : SExpr} {q : Rat} : Writes divisors x q → 0 < q →
    Writes divisors (.apply "-" [x]) (-q)

/-- How a whole number is written. -/
inductive WritesInt : SExpr → Int → Prop where
  | whole (n : Nat) : WritesInt (.atom (toString n)) n
  | minus {n : Nat} : 0 < n → WritesInt (.apply "-" [.atom (toString n)]) (-n)

variable {divisors : Set Nat} {x : SExpr} {q : Rat}

/-- A solver reads the number that is written. -/
theorem Writes.value? (h : Writes divisors x q) (s : State) (val : Valuation) :
    s.value? val x = some ⟨.real, q⟩ := by
  induction h with
  | whole n => exact State.value?_wholeReal n
  | @quotient n d _ hd _ =>
    have hne : (d : Rat) ≠ 0 := Nat.cast_ne_zero.mpr (Nat.zero_lt_of_lt hd).ne'
    refine (State.value?_apply .divide rfl
      (.cons (State.value?_wholeReal n) (.cons (State.value?_wholeReal d) .nil))).trans ?_
    exact if_neg hne
  | minus _ _ ih => exact State.value?_apply .minus rfl (.cons ih .nil)

/-- A number is written with a minus exactly if it is below zero. -/
theorem Writes.minus_iff (h : Writes divisors x q) : (∃ y, x = .apply "-" [y]) ↔ q < 0 := by
  cases h with
  | whole n =>
    constructor
    · rintro ⟨y, hy⟩
      cases hy
    · exact fun hlt => absurd hlt (not_lt.mpr (Nat.cast_nonneg n))
  | @quotient n d _ _ _ =>
    constructor
    · rintro ⟨y, hy⟩
      simp [SExpr.apply] at hy
    · exact fun hlt => absurd hlt (not_lt.mpr (div_nonneg (Nat.cast_nonneg n) (Nat.cast_nonneg d)))
  | @minus y p _ hp => exact ⟨fun _ => neg_neg_of_pos hp, fun _ => ⟨y, rfl⟩⟩

/-- Zero is written in one way only. -/
theorem Writes.eq_of_zero (h : Writes divisors x 0) : x = .atom "0.0" := by
  generalize hq : (0 : Rat) = q at h
  cases h with
  | whole n =>
    have hn : n = 0 := Nat.cast_eq_zero.mp hq.symm
    subst hn
    rfl
  | @quotient n d hcoprime hd _ =>
    have hne : (d : Rat) ≠ 0 := Nat.cast_ne_zero.mpr (Nat.zero_lt_of_lt hd).ne'
    have hn : n = 0 := Nat.cast_eq_zero.mp ((div_eq_zero_iff.mp hq.symm).resolve_right hne)
    subst hn
    exact absurd ((Nat.coprime_zero_left d).mp hcoprime) hd.ne'
  | minus _ hp => exact absurd (neg_eq_zero.mp hq.symm) hp.ne'

theorem WritesInt.value? {n : Int} (h : WritesInt x n) (s : State) (val : Valuation) :
    s.value? val x = some ⟨.int, n⟩ := by
  cases h with
  | whole n => exact State.value?_literal (literal?_nat n)
  | @minus n _ =>
    have hdigits : s.value? val (.atom (toString n)) = some ⟨.int, (n : Int)⟩ :=
      State.value?_literal (literal?_nat n)
    exact State.value?_apply .minus rfl (.cons hdigits .nil)

/-! ## The literals of the backend -/

theorem writes_realLiteral (h : q.den = 1 ∨ q.den ∈ divisors) :
    Writes divisors (realLiteral q) q := by
  have hmagnitude : Writes divisors (if q.den = 1 then wholeReal q.num.natAbs
      else .apply "/" [wholeReal q.num.natAbs, wholeReal q.den]) (q.num.natAbs / q.den) := by
    by_cases hden : q.den = 1
    · rw [if_pos hden, hden, Nat.cast_one, div_one]
      exact .whole q.num.natAbs
    · have hlt : 1 < q.den := lt_of_le_of_ne q.den_pos (Ne.symm hden)
      rw [if_neg hden]
      exact .quotient q.reduced hlt (h.resolve_left hden)
  rw [realLiteral]
  by_cases hq : q.num < 0
  · have habs : (q.num.natAbs : Rat) / q.den = -q := by
      have hnum : (q.num.natAbs : Int) = -q.num := by omega
      rw [← Int.cast_natCast, hnum, Int.cast_neg, neg_div, Rat.num_div_den]
    have hpos : 0 < -q := neg_pos.mpr (Rat.num_neg.mp hq)
    rw [habs] at hmagnitude
    rw [decide_eq_true hq, signed, if_pos rfl]
    have hminus := hmagnitude.minus hpos
    rwa [neg_neg] at hminus
  · have habs : (q.num.natAbs : Rat) / q.den = q := by
      have hnum : (q.num.natAbs : Int) = q.num := by omega
      rw [← Int.cast_natCast, hnum, Rat.num_div_den]
    rw [habs] at hmagnitude
    rw [decide_eq_false hq, signed, if_neg Bool.false_ne_true]
    exact hmagnitude

/-- The divisors of doubles in lowest terms. -/
def powersOfTwo : Set Nat := Set.range (2 ^ ·)

theorem writes_double {x : Double} (h : x.ieee? = some q) :
    Writes powersOfTwo (realLiteral q) q := by
  rw [← Double.toRat?_eq_ieee?] at h
  obtain ⟨k, hk⟩ := Double.exists_den_eq_two_pow h
  exact writes_realLiteral (.inr ⟨k, hk.symm⟩)

theorem writesInt_intLiteral (n : Int) : WritesInt (intLiteral n) n := by
  rw [intLiteral]
  by_cases hn : n < 0
  · rw [decide_eq_true hn, signed, if_pos rfl]
    have hpos : 0 < n.natAbs := by omega
    have hminus := WritesInt.minus hpos
    have hneg : -(n.natAbs : Int) = n := by omega
    rwa [hneg] at hminus
  · rw [decide_eq_false hn, signed, if_neg Bool.false_ne_true]
    have hwhole := WritesInt.whole n.natAbs
    have habs : (n.natAbs : Int) = n := by omega
    rwa [habs] at hwhole

/-- Different rationals have different literals, since a literal has one value. -/
theorem realLiteral_injective : Function.Injective realLiteral := by
  intro p q h
  have hp : State.empty.value? .zero (realLiteral p) = some ⟨.real, p⟩ := State.value?_realLiteral p
  rw [h, State.value?_realLiteral] at hp
  cases hp
  rfl

/-! ## Constants of terms -/

open Encoder

/-- A finite double is encoded as the literal of its number, and nothing but the number of the next
node changes. -/
theorem run_encodeTerm_double {e : Encoder backend} (h : e.capabilities.rationals = true)
    {x : Double} (hx : x.ieee? = some q) :
    (encodeTerm (.constant (.double x))).run e =
      ⟨.ok (.rational ⟨e.backend.nextId, realLiteral q⟩), { e with backend := e.backend.skip },
        []⟩ := by
  rw [← Double.toRat?_eq_ieee?] at hx
  simp only [encodeTerm, encodeConstant]
  rw [run_requireRationals_bind, if_pos h, hx]
  rfl

/-- A double that is no number is refused, and nothing changes. -/
theorem run_encodeTerm_special {e : Encoder backend} (h : e.capabilities.rationals = true)
    {x : Double} (hx : x.ieee? = none) :
    (encodeTerm (.constant (.double x))).run e = ⟨.error (.nonFiniteConstant x), e, []⟩ := by
  rw [← Double.toRat?_eq_ieee?] at hx
  simp only [encodeTerm, encodeConstant]
  rw [run_requireRationals_bind, if_pos h, hx]
  rfl

/-- A double that is encoded is finite, and its literal is that of its value. -/
theorem expr_of_encodeTerm_double {e : Encoder backend} {x : Double} {node : Node}
    (h : ((encodeTerm (.constant (.double x))).run e).value = .ok (.rational node)) :
    x.isFinite = true ∧ node.expr = realLiteral x.value := by
  have hrationals : e.capabilities.rationals = true := by
    simp only [encodeTerm, encodeConstant, run_requireRationals_bind] at h
    split at h
    · assumption
    · cases h
  cases hx : x.ieee? with
  | none =>
    rw [run_encodeTerm_special hrationals hx] at h
    cases h
  | some q =>
    rw [run_encodeTerm_double hrationals hx] at h
    cases h
    rw [← Double.toRat?_eq_ieee?, Double.toRat?_eq_some_iff] at hx
    obtain ⟨hfinite, rfl⟩ := hx
    exact ⟨hfinite, rfl⟩

/-- Numeric constants are encoded exactly.  With rationals, a double is encoded if and only if IEEE
754 gives its pattern a number, as a literal of that number with a power of two as the divisor if
there is one.  A minus stands in front of the numbers below zero, so none stands in front of a zero.
The other doubles are refused by an error that names them, and nothing changes.  Doubles have the
same literal exactly if they are equal as numbers.  Whole numbers of any size, and rationals given
by any numerator and any divisor but zero, are written exactly too. -/
theorem numeric_constants_exact (e : Encoder backend) :
    (e.capabilities.rationals = true → ∀ x : Double,
      (∀ q, x.ieee? = some q → ∃ node : Node,
        (encodeTerm (.constant (.double x))).run e =
          ⟨.ok (.rational node), { e with backend := e.backend.skip }, []⟩ ∧
        Writes powersOfTwo node.expr q ∧ ((∃ y, node.expr = .apply "-" [y]) ↔ q < 0) ∧
        (x.isZero = true → node.expr = .atom "0.0") ∧
        ∀ s val, State.value? s val node.expr = some ⟨.real, q⟩) ∧
      (x.ieee? = none →
        (encodeTerm (.constant (.double x))).run e = ⟨.error (.nonFiniteConstant x), e, []⟩)) ∧
    (∀ (d : Encoder backend) (x y : Double) (m n : Node),
      ((encodeTerm (.constant (.double x))).run d).value = .ok (.rational m) →
      ((encodeTerm (.constant (.double y))).run e).value = .ok (.rational n) →
        (m.expr = n.expr ↔ x.equal y = true)) ∧
    (∀ n : Int, ∃ node : Node,
      backend.core (.intConstant n) e.backend = ⟨node, e.backend.skip, []⟩ ∧
      (encodeTerm (.constant (.integer n))).run e =
        ⟨.ok (.integer node), { e with backend := e.backend.skip }, []⟩ ∧
      WritesInt node.expr n ∧ ∀ s val, State.value? s val node.expr = some ⟨.int, n⟩) ∧
    ∀ num den : Int, den ≠ 0 → ∃ node : Node,
      Action.run (backend.rational (.constant (Rat.divInt num den))) e.backend =
        ⟨.ok node, e.backend.skip, []⟩ ∧
      Writes Set.univ node.expr (num / den) ∧
      ∀ s val, State.value? s val node.expr = some ⟨.real, (num / den : Rat)⟩ := by
  refine ⟨fun hrationals x => ⟨fun q hq => ?_, fun hx => run_encodeTerm_special hrationals hx⟩,
    fun d x y m n hm hn => ?_, fun n => ?_, fun num den _ => ?_⟩
  · have hwrites := writes_double hq
    refine ⟨_, run_encodeTerm_double hrationals hq, hwrites, hwrites.minus_iff, fun hzero => ?_,
      hwrites.value?⟩
    rw [← Double.toRat?_eq_ieee?, Double.toRat?_of_isZero hzero] at hq
    cases hq
    exact hwrites.eq_of_zero
  · obtain ⟨hx, hxm⟩ := expr_of_encodeTerm_double hm
    obtain ⟨hy, hyn⟩ := expr_of_encodeTerm_double hn
    rw [hxm, hyn, realLiteral_injective.eq_iff, Double.value_eq_iff_equal hx hy]
  · have hwrites := writesInt_intLiteral n
    exact ⟨⟨e.backend.nextId, intLiteral n⟩, rfl, rfl, hwrites, hwrites.value?⟩
  · have hwrites : Writes Set.univ (realLiteral (Rat.divInt num den)) (num / den) := by
      rw [← Rat.divInt_eq_div]
      exact writes_realLiteral (.inr (Set.mem_univ _))
    exact ⟨⟨e.backend.nextId, realLiteral (Rat.divInt num den)⟩, rfl, hwrites, hwrites.value?⟩

/-- A negative double that no decimal fraction of few digits is, the zero with the sign, and a
quotient with a divisor below zero. -/
theorem numeric_constants_exact_tenth :
    let e : Encoder backend := .new .empty
    let tenth : Double := ⟨0xBFB999999999999A⟩
    let zero : Double := ⟨0x8000000000000000⟩
    (∃ node : Node, (encodeTerm (.constant (.double tenth))).run e =
        ⟨.ok (.rational node), { e with backend := e.backend.skip }, []⟩ ∧
      ∃ y, node.expr = .apply "-" [y]) ∧
    (∃ node : Node, (encodeTerm (.constant (.double zero))).run e =
        ⟨.ok (.rational node), { e with backend := e.backend.skip }, []⟩ ∧
      node.expr = .atom "0.0") ∧
    ((realLiteral (-3602879701896397 / 36028797018963968) = realLiteral 0) ↔
      tenth.equal zero = true) ∧
    ∃ node : Node, Action.run (backend.rational (.constant (Rat.divInt 3 (-6)))) e.backend =
        ⟨.ok node, e.backend.skip, []⟩ ∧
      Writes Set.univ node.expr (-(1 / 2)) := by
  intro e tenth zero
  have hrationals : e.capabilities.rationals = true := rfl
  have htenth : tenth.ieee? = some (-3602879701896397 / 36028797018963968) := by decide +kernel
  have hzero : zero.ieee? = some 0 := by decide +kernel
  obtain ⟨hdoubles, hequal, _, hquotients⟩ := numeric_constants_exact e
  obtain ⟨m, hm, _, hminus, _⟩ := (hdoubles hrationals tenth).1 _ htenth
  obtain ⟨n, hn, _, _, hplain, _⟩ := (hdoubles hrationals zero).1 _ hzero
  obtain ⟨node, hnode, hwrites, _⟩ := hquotients 3 (-6) (by decide)
  refine ⟨⟨m, hm, hminus.mpr (by norm_num)⟩, ⟨n, hn, hplain (by decide)⟩, ?_, node, hnode, ?_⟩
  · refine hequal e tenth zero ⟨0, realLiteral _⟩ ⟨0, realLiteral 0⟩ ?_ ?_
    · rw [run_encodeTerm_double hrationals htenth]
      rfl
    · rw [run_encodeTerm_double hrationals hzero]
      rfl
  · norm_num at hwrites
    exact hwrites

end SmtEncoding.SmtLib
