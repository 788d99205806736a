import SmtEncoding.Proofs.Verdict

/-!
# Comparisons

A term is answered with a numeral of its declared type, and a term with a double in it is answered
only with rationals (`Encoder.typed_of_answers`, `Encoder.subterms_of_answers`).  Neither depends on
what is registered, nor on what objects the backend builds.

So the check that comes before a comparison without rationals refuses only what would fail anyway:
where both terms are answered, one after the other, it passes
(`Encoder.compare_of_answers`).  A comparison is therefore answered exactly if its terms and then
the comparison of their numerals are (`guard_refuses_failures_only`).  The comparison of numerals
is one on rationals exactly if one of the terms has the type of doubles
(`numerals_of_declared_types`).
-/

namespace SmtEncoding

/-! ## Answers -/

namespace Action

variable {σ α β : Type} {f : Action σ α} {s s' : σ}

/-- From a state, an action answers with a value and leaves a state. -/
structure Answers (f : Action σ α) (s : σ) (a : α) (s' : σ) : Prop where
  value : (f.run s).value = .ok a
  state : (f.run s).state = s'

theorem answers_pure_iff {a b : α} : Answers (pure a) s b s' ↔ a = b ∧ s = s' := by
  constructor
  · rintro ⟨hvalue, hstate⟩
    exact ⟨Except.ok.inj hvalue, hstate⟩
  · rintro ⟨rfl, rfl⟩
    exact ⟨rfl, rfl⟩

theorem not_answers_throw {err : EncodeError} {a : α} : ¬ Answers (throw err) s a s' := by
  intro h
  cases h.value

/-- Two actions one after the other answer if both do. -/
theorem answers_bind_iff {k : α → Action σ β} {b : β} :
    Answers (f >>= k) s b s' ↔ ∃ a t, f.Answers s a t ∧ (k a).Answers t b s' := by
  constructor
  · rintro ⟨hvalue, hstate⟩
    cases hf : (f.run s).value with
    | ok a =>
      rw [run_bind_of_ok hf] at hvalue hstate
      exact ⟨a, (f.run s).state, ⟨hf, rfl⟩, hvalue, hstate⟩
    | error err =>
      rw [run_bind_of_error hf] at hvalue
      cases hvalue
  · rintro ⟨a, t, ⟨hf, rfl⟩, hvalue, hstate⟩
    constructor
    · rw [run_bind_of_ok hf]
      exact hvalue
    · rw [run_bind_of_ok hf]
      exact hstate

theorem answers_map_iff {φ : α → β} {b : β} :
    Answers (φ <$> f) s b s' ↔ ∃ a, f.Answers s a s' ∧ φ a = b := by
  rw [map_eq_pure_bind, answers_bind_iff]
  constructor
  · rintro ⟨a, t, hf, hpure⟩
    obtain ⟨rfl, rfl⟩ := answers_pure_iff.mp hpure
    exact ⟨a, hf, rfl⟩
  · rintro ⟨a, hf, rfl⟩
    exact ⟨a, s', hf, answers_pure_iff.mpr ⟨rfl, rfl⟩⟩

theorem answers_get_bind_iff {k : σ → Action σ β} {b : β} :
    Answers (get >>= k) s b s' ↔ (k s).Answers s b s' := by
  constructor
  · rintro ⟨hvalue, hstate⟩
    rw [run_get_bind] at hvalue hstate
    exact ⟨hvalue, hstate⟩
  · rintro ⟨hvalue, hstate⟩
    constructor <;> rw [run_get_bind]
    · exact hvalue
    · exact hstate

end Action

namespace Encoder

variable {B : Backend} {α : Type} {e e' : Encoder B} {n : Numeral B.Obj}

/-- There is an answer behind a check only where there are rationals. -/
theorem answers_requireRationals_iff {k : Action (Encoder B) α} {a : α} :
    (do requireRationals; k).Answers e a e' ↔
      e.capabilities.rationals = true ∧ k.Answers e a e' := by
  constructor
  · rintro ⟨hvalue, hstate⟩
    rw [run_requireRationals_bind] at hvalue hstate
    split at hvalue
    · rename_i hrationals
      rw [if_pos hrationals] at hstate
      exact ⟨hrationals, hvalue, hstate⟩
    · cases hvalue
  · rintro ⟨hrationals, hvalue, hstate⟩
    constructor <;> rw [run_requireRationals_bind, if_pos hrationals]
    · exact hvalue
    · exact hstate

/-! ## Terms that are answered -/

/-- A numeral of the sort of a type, with rationals if it is that of doubles. -/
structure Typed (e : Encoder B) (type : ValueType) (n : Numeral B.Obj) : Prop where
  sort_eq : n.sort = type.sort
  rationals : type = .double → e.capabilities.rationals = true

theorem Typed.integer (x : B.Obj .int) : Typed e .integer (.integer x) := ⟨rfl, nofun⟩

theorem Typed.rational (h : e.capabilities.rationals = true) (x : B.Obj .real) :
    Typed e .double (.rational x) := ⟨rfl, fun _ => h⟩

theorem typed_of_constant {c : Constant} (h : (encodeConstant c).Answers e n e') :
    Typed e c.type n := by
  cases c with
  | integer value =>
    obtain ⟨x, _, rfl⟩ := Action.answers_map_iff.mp h
    exact .integer x
  | double value =>
    simp only [encodeConstant] at h
    obtain ⟨hrationals, h⟩ := answers_requireRationals_iff.mp h
    cases hvalue : value.toRat? with
    | none =>
      rw [hvalue] at h
      exact absurd h Action.not_answers_throw
    | some q =>
      rw [hvalue] at h
      obtain ⟨x, _, rfl⟩ := Action.answers_map_iff.mp h
      exact .rational hrationals x

/-- A variable in a term is answered with a numeral of its declared type. -/
theorem typed_of_variable {allow : Bool} {v : Variable}
    (h : (resolveNumeral allow v).Answers e n e') : Typed e v.type n := by
  unfold resolveNumeral at h
  cases htype : v.type with
  | bool =>
    rw [htype] at h
    exact absurd h Action.not_answers_throw
  | integer =>
    rw [htype] at h
    obtain ⟨x, _, rfl⟩ := Action.answers_map_iff.mp h
    exact .integer x
  | double =>
    rw [htype] at h
    obtain ⟨hrationals, h⟩ := answers_requireRationals_iff.mp h
    obtain ⟨x, _, rfl⟩ := Action.answers_map_iff.mp h
    exact .rational hrationals x

/-- A function is answered with a numeral of its own type. -/
theorem typed_of_function {f : FunctionKind} {args : List (Numeral B.Obj)} {type : ValueType}
    (h : (applyFunction f args type).Answers e n e') : Typed e type n := by
  cases type with
  | bool => exact absurd h Action.not_answers_throw
  | integer =>
    obtain ⟨xs, e₁, _, h⟩ := Action.answers_bind_iff.mp h
    cases f with
    | add =>
      obtain ⟨x, _, rfl⟩ := Action.answers_map_iff.mp h
      exact .integer x
    | multiply =>
      obtain ⟨x, _, rfl⟩ := Action.answers_map_iff.mp h
      exact .integer x
    | divide => exact absurd h Action.not_answers_throw
  | double =>
    obtain ⟨hrationals, h⟩ := answers_requireRationals_iff.mp h
    cases f with
    | add =>
      obtain ⟨x, _, rfl⟩ := Action.answers_map_iff.mp h
      exact .rational hrationals x
    | multiply =>
      obtain ⟨x, _, rfl⟩ := Action.answers_map_iff.mp h
      exact .rational hrationals x
    | divide => exact absurd h Action.not_answers_throw

/-- Encoding a term changes no capabilities. -/
theorem capabilities_of_answers {t : Term} (h : (encodeTerm t).Answers e n e') :
    e'.capabilities = e.capabilities := by
  rw [← h.state]
  exact Moves.capabilities_eq (Moving.moves (Moving.encodeTerm t))

theorem capabilities_of_answersAll {ts : List Term} {ns : List (Numeral B.Obj)}
    (h : (encodeTerms ts).Answers e ns e') : e'.capabilities = e.capabilities := by
  rw [← h.state]
  exact Moves.capabilities_eq (Moving.moves (Moving.encodeTerms ts))

/-- A term is answered with a numeral of its declared type. -/
theorem typed_of_answers {t : Term} (h : (encodeTerm t).Answers e n e') : Typed e t.type n := by
  cases t with
  | constant c =>
    simp only [encodeTerm] at h
    exact typed_of_constant h
  | var v =>
    simp only [encodeTerm] at h
    exact typed_of_variable (Action.answers_get_bind_iff.mp h)
  | app f args type =>
    simp only [encodeTerm] at h
    obtain ⟨ns, e₁, hargs, h⟩ := Action.answers_bind_iff.mp h
    obtain ⟨hsort, hrationals⟩ := typed_of_function h
    refine ⟨hsort, fun htype => ?_⟩
    rw [← capabilities_of_answersAll hargs]
    exact hrationals htype

mutual

/-- A term that is answered has a double in it only if there are rationals. -/
theorem subterms_of_answers {e : Encoder B} : ∀ {t : Term} {n : Numeral B.Obj} {e' : Encoder B},
    (encodeTerm t).Answers e n e' → ∀ u ∈ t.subterms, u.type = .double →
      e.capabilities.rationals = true
  | .constant c, _, _, h => by
    simp only [Term.subterms]
    exact List.forall_mem_singleton.mpr (typed_of_answers h).rationals
  | .var v, _, _, h => by
    simp only [Term.subterms]
    exact List.forall_mem_singleton.mpr (typed_of_answers h).rationals
  | .app f args type, _, _, h => by
    have htyped := typed_of_answers h
    simp only [encodeTerm] at h
    obtain ⟨ns, e₁, hargs, _⟩ := Action.answers_bind_iff.mp h
    simp only [Term.subterms]
    exact List.forall_mem_cons.mpr ⟨htyped.rationals, subterms_of_answersAll hargs⟩

theorem subterms_of_answersAll {e : Encoder B} : ∀ {ts : List Term} {ns : List (Numeral B.Obj)}
    {e' : Encoder B}, (encodeTerms ts).Answers e ns e' →
      ∀ u ∈ Term.subtermsAll ts, u.type = .double → e.capabilities.rationals = true
  | [], _, _, _ => by
    simp only [Term.subtermsAll]
    exact nofun
  | t :: ts, _, _, h => by
    simp only [encodeTerms] at h
    obtain ⟨n, e₁, ht, h⟩ := Action.answers_bind_iff.mp h
    obtain ⟨ns, e₂, hts, _⟩ := Action.answers_bind_iff.mp h
    have hrest := subterms_of_answersAll hts
    rw [capabilities_of_answers ht] at hrest
    simp only [Term.subtermsAll]
    exact List.forall_mem_append.mpr ⟨subterms_of_answers ht, hrest⟩

end

/-! ## Comparisons of terms -/

variable {c : Comparison} {l r : Term} {m : Numeral B.Obj} {e₁ e₂ : Encoder B}

/-- A comparison of terms is reported and checked, and then its terms and their numerals follow. -/
theorem run_encode_compare (c : Comparison) (l r : Term) (e : Encoder B) :
    (encode (.compare c l r)).run e =
      let reply := if e.capabilities.rationals ||
          (l.subterms ++ r.subterms).all (·.type ≠ .double) then
        (do let m ← encodeTerm l; let n ← encodeTerm r; compareNumerals c m n).run e
      else ⟨.error (.backendUnsupportedType .double), e, []⟩
      ⟨reply.value, reply.state, .encoding (.comparison c) :: reply.log⟩ := by
  simp only [encode, visit, Action.run_note_bind, encodeComparison, run_checkTerms_bind]

/-- Where both terms are answered the check passes, and the comparison ends as that of the two
numerals does. -/
theorem compare_of_answers (hl : (encodeTerm l).Answers e m e₁)
    (hr : (encodeTerm r).Answers e₁ n e₂) :
    ((encode (.compare c l r)).run e).value = ((compareNumerals c m n).run e₂).value ∧
    ((encode (.compare c l r)).run e).state = ((compareNumerals c m n).run e₂).state := by
  have hsubterms : ∀ u ∈ l.subterms ++ r.subterms, u.type = .double →
      e.capabilities.rationals = true := by
    have hright := subterms_of_answers hr
    rw [capabilities_of_answers hl] at hright
    exact List.forall_mem_append.mpr ⟨subterms_of_answers hl, hright⟩
  have hpasses : (e.capabilities.rationals ||
      (l.subterms ++ r.subterms).all (·.type ≠ .double)) = true := by
    cases hrationals : e.capabilities.rationals with
    | true => rfl
    | false =>
      rw [Bool.false_or, List.all_eq_true]
      intro u hu
      refine decide_eq_true fun hdouble => ?_
      rw [hsubterms u hu hdouble] at hrationals
      cases hrationals
  rw [run_encode_compare, if_pos hpasses, Action.run_bind_of_ok hl.value, hl.state,
    Action.run_bind_of_ok hr.value, hr.state]
  exact ⟨rfl, rfl⟩

end Encoder

open Encoder in
/-- From whatever state, on whatever backend: a comparison of two terms is answered exactly if the
left term, the right term and then the comparison of their numerals are answered one after the
other, with the same object and the same state in the end.  Without rationals it fails for lack of
doubles if there is a double anywhere in the terms, whatever else stands against them, and the
encoder with its backend and its registry is as it was. -/
theorem guard_refuses_failures_only {B : Backend} (c : Comparison) (l r : Term) (e : Encoder B) :
    (∀ x e', (encode (.compare c l r)).Answers e x e' ↔
      ∃ m e₁ n e₂, (encodeTerm l).Answers e m e₁ ∧ (encodeTerm r).Answers e₁ n e₂ ∧
        (compareNumerals c m n).Answers e₂ x e') ∧
    (e.capabilities.rationals = false → (∃ t ∈ l.subterms ++ r.subterms, t.type = .double) →
      (encode (.compare c l r)).run e =
        ⟨.error (.backendUnsupportedType .double), e, [.encoding (.comparison c)]⟩) := by
  refine ⟨fun x e' => ⟨fun h => ?_, ?_⟩, ?_⟩
  · have hparts : (do let m ← encodeTerm l; let n ← encodeTerm r; compareNumerals c m n).Answers
        e x e' := by
      obtain ⟨hvalue, hstate⟩ := h
      rw [run_encode_compare] at hvalue hstate
      split at hvalue
      · rename_i hpasses
        rw [if_pos hpasses] at hstate
        exact ⟨hvalue, hstate⟩
      · cases hvalue
    obtain ⟨m, e₁, hl, hrest⟩ := Action.answers_bind_iff.mp hparts
    obtain ⟨n, e₂, hr, hcompare⟩ := Action.answers_bind_iff.mp hrest
    exact ⟨m, e₁, n, e₂, hl, hr, hcompare⟩
  · rintro ⟨m, e₁, n, e₂, hl, hr, hcompare⟩
    obtain ⟨hvalue, hstate⟩ := compare_of_answers (c := c) hl hr
    exact ⟨hvalue.trans hcompare.value, hstate.trans hcompare.state⟩
  · rintro hrationals ⟨t, ht, hdouble⟩
    have hfails : ¬ (e.capabilities.rationals ||
        (l.subterms ++ r.subterms).all (·.type ≠ .double)) = true := by
      rw [hrationals, Bool.false_or, List.all_eq_true]
      intro hall
      exact of_decide_eq_true (hall t ht) hdouble
    rw [run_encode_compare, if_neg hfails]

/-- Terms that would fail for a function, an unknown variable and a type, with a double far inside
the right one. -/
def faultyTerms : Term × Term :=
  (.app .divide [.var ⟨"n", .integer⟩] .integer,
    .app .add [.var ⟨"b", .bool⟩, .app .multiply [.constant (.double ⟨0⟩)] .bool] .integer)

/-- Without rationals and without creation the terms are refused for the double, and a comparison
of whole numbers is answered as its parts are. -/
theorem guard_refuses_failures_only_faulty :
    let e : Encoder Recording.backend := .new (.empty ⟨false⟩) .strict
    let one : Term := .constant (.integer 1)
    e.capabilities.rationals = false ∧
    (∃ t ∈ faultyTerms.1.subterms ++ faultyTerms.2.subterms, t.type = .double) ∧
    (Encoder.encode (.compare .lessThan faultyTerms.1 faultyTerms.2)).run e =
      ⟨.error (.backendUnsupportedType .double), e, [.encoding (.comparison .lessThan)]⟩ ∧
    ∃ e' m e₁ n e₂, (Encoder.encode (.compare .lessThan one one)).Answers e (2 : Nat) e' ∧
      (Encoder.encodeTerm one).Answers e m e₁ ∧ (Encoder.encodeTerm one).Answers e₁ n e₂ ∧
      (Encoder.compareNumerals .lessThan m n).Answers e₂ (2 : Nat) e' := by
  intro e one
  have hdouble : ∃ t ∈ faultyTerms.1.subterms ++ faultyTerms.2.subterms, t.type = .double :=
    ⟨.constant (.double ⟨0⟩), List.mem_of_getElem? (i := 5) rfl, rfl⟩
  have hrefused :=
    (guard_refuses_failures_only .lessThan faultyTerms.1 faultyTerms.2 e).2 rfl hdouble
  have hone : (Encoder.encode (.compare .lessThan one one)).Answers e (2 : Nat) _ := ⟨rfl, rfl⟩
  obtain ⟨m, e₁, n, e₂, hparts⟩ := ((guard_refuses_failures_only .lessThan one one e).1 _ _).mp hone
  exact ⟨rfl, hdouble, hrefused, _, m, e₁, n, e₂, hone, hparts⟩

/-! ## Numerals of declared types -/

namespace Encoder

variable {B : Backend} {e e₁ e₂ : Encoder B} {l r : Term} {m n : Numeral B.Obj}

/-- Rationals are compared as such if the capabilities include them. -/
theorem run_compareNumerals_of_rationals (c : Comparison)
    (hmn : (m.isRational || n.isRational) = true) (hr : e.capabilities.rationals = true) :
    (compareNumerals c m n).run e = (rational (.compare c m n)).run e := by
  rw [compareNumerals, Action.run_get_bind, hmn, hr]
  rfl

/-- Whole numbers are compared as such. -/
theorem run_compareNumerals_integers (c : Comparison) (x y : B.Obj .int) :
    (compareNumerals c (.integer x) (.integer y)).run e = (core (.intCompare c x y)).run e := by
  rw [compareNumerals, Action.run_get_bind]
  rfl

theorem Typed.numeric {type : ValueType} (h : Typed e type n) :
    type = .integer ∨ type = .double := by
  have hsort := h.sort_eq
  cases type with
  | bool => cases n <;> cases hsort
  | integer => exact .inl rfl
  | double => exact .inr rfl

/-- A numeral of a term that is no double is a whole number. -/
theorem Typed.exists_integer {type : ValueType} (h : Typed e type n) (htype : type ≠ .double) :
    ∃ x, n = .integer x := by
  cases n with
  | integer x => exact ⟨x, rfl⟩
  | rational x => exact absurd ((Numeral.isRational_iff h.sort_eq).mp rfl) htype

/-- If one of two terms that are answered has the type of doubles, the comparison of their numerals
is one of rationals. -/
theorem compareNumerals_of_double (c : Comparison) (hl : (encodeTerm l).Answers e m e₁)
    (hr : (encodeTerm r).Answers e₁ n e₂) (hdouble : l.type = .double ∨ r.type = .double) :
    (compareNumerals c m n).run e₂ = (rational (.compare c m n)).run e₂ := by
  have hm := typed_of_answers hl
  have hn := typed_of_answers hr
  have hrationals : e₂.capabilities.rationals = true := by
    rw [capabilities_of_answers hr]
    rcases hdouble with hleft | hright
    · rw [capabilities_of_answers hl]
      exact hm.rationals hleft
    · exact hn.rationals hright
  have hrational : (m.isRational || n.isRational) = true := by
    rw [Bool.or_eq_true, Numeral.isRational_iff hm.sort_eq, Numeral.isRational_iff hn.sort_eq]
    exact hdouble
  exact run_compareNumerals_of_rationals c hrational hrationals

end Encoder

open Encoder in
/-- In whatever state an encoder is, and on whatever backend: a term that is answered is of a
numeric type, and its numeral is a rational exactly if that is the type of doubles.  If both terms
of a comparison are answered, the comparison ends with one of rationals exactly if one of the two
terms has the type of doubles.  Otherwise both numerals are whole numbers, and the comparison of
these is answered. -/
theorem numerals_of_declared_types {B : Backend} (e : Encoder B) :
    (∀ t n, ((encodeTerm t).run e).value = .ok n →
      (t.type = .integer ∨ t.type = .double) ∧ (n.isRational = true ↔ t.type = .double)) ∧
    ∀ c l r m e₁ n e₂, (encodeTerm l).Answers e m e₁ → (encodeTerm r).Answers e₁ n e₂ →
      let reply := (encode (.compare c l r)).run e
      if l.type = .double ∨ r.type = .double then
        let compared := (B.rational (.compare c m n)).run e₂.backend
        reply.value = compared.value ∧ reply.state = { e₂ with backend := compared.state }
      else
        ∃ x y, m = .integer x ∧ n = .integer y ∧
          let compared := B.core (.intCompare c x y) e₂.backend
          reply.value = .ok compared.value ∧
            reply.state = { e₂ with backend := compared.state } := by
  refine ⟨fun t n hn => ?_, fun c l r m e₁ n e₂ hl hr => ?_⟩
  · have htyped : Typed e t.type n := typed_of_answers ⟨hn, rfl⟩
    exact ⟨htyped.numeric, Numeral.isRational_iff htyped.sort_eq⟩
  · obtain ⟨hvalue, hstate⟩ := compare_of_answers (c := c) hl hr
    intro reply
    split
    · rename_i hdouble
      rw [compareNumerals_of_double c hl hr hdouble] at hvalue hstate
      exact ⟨hvalue, hstate⟩
    · rename_i hinteger
      rw [not_or] at hinteger
      obtain ⟨x, rfl⟩ := (typed_of_answers hl).exists_integer hinteger.1
      obtain ⟨y, rfl⟩ := (typed_of_answers hr).exists_integer hinteger.2
      rw [run_compareNumerals_integers] at hvalue hstate
      exact ⟨x, y, rfl, rfl, hvalue, hstate⟩

/-- An encoder that has met the number `x` as a truth value. -/
def literalMet : Encoder Recording.backend :=
  ((Encoder.encode (.literal ⟨"x", .integer⟩ true)).run
    (.new (B := Recording.backend) (.empty {}) {})).state

/-- A whole number is compared with a sum at the type of doubles: the numerals are of different
sorts, and the comparison is one of rationals. -/
theorem numerals_of_declared_types_mixed :
    let number : Term := .var ⟨"n", .integer⟩
    let sum : Term := .app .add [number] .double
    ∃ m e₁ n e₂, (Encoder.encodeTerm number).Answers literalMet m e₁ ∧
      (Encoder.encodeTerm sum).Answers e₁ n e₂ ∧ m.isRational = false ∧ n.isRational = true ∧
      let reply := (Encoder.encode (.compare .lessThan number sum)).run literalMet
      let compared := (Recording.backend.rational (.compare .lessThan m n)).run e₂.backend
      reply.value = compared.value ∧ reply.state = { e₂ with backend := compared.state } := by
  intro number sum
  have hnumber : (Encoder.encodeTerm number).Answers literalMet (.integer (1 : Nat)) _ := ⟨rfl, rfl⟩
  have hsum : (Encoder.encodeTerm sum).Answers ((Encoder.encodeTerm number).run literalMet).state
      (.rational (2 : Nat)) _ := ⟨rfl, rfl⟩
  have hrational := ((numerals_of_declared_types _).1 sum _ hsum.value).2.mpr rfl
  have hmixed := (numerals_of_declared_types literalMet).2 .lessThan number sum _ _ _ _ hnumber hsum
  dsimp only at hmixed
  rw [if_pos (.inr rfl)] at hmixed
  exact ⟨_, _, _, _, hnumber, hsum, rfl, hrational, hmixed⟩

end SmtEncoding
