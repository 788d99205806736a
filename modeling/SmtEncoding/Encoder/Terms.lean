import SmtEncoding.Encoder.Basic

/-!
# The encoding of terms

A term is reduced to a numeral.  Arguments come first, from left to right, then the function at
its result type: an operation on whole numbers takes whole numbers only, and one on rationals takes
both.  A double becomes its exact rational value.
-/

namespace SmtEncoding.Encoder

variable {B : Backend}

/-! ## Whole numbers -/

/-- The whole number of a numeral. -/
def expectInteger : Numeral B.Obj → Except EncodeError (B.Obj .int)
  | .integer x => .ok x
  | .rational _ => .error (.incompatibleOperand .int .real)

/-- The whole numbers of numerals.  The first that is a rational fails. -/
def expectIntegers : List (Numeral B.Obj) → Except EncodeError (List (B.Obj .int))
  | [] => .ok []
  | n :: ns => do
    let x ← expectInteger n
    let xs ← expectIntegers ns
    .ok (x :: xs)

theorem eq_integer_of_expectInteger {n : Numeral B.Obj} {x : B.Obj .int}
    (h : expectInteger n = .ok x) : n = .integer x := by
  cases n with
  | integer y =>
    cases h
    rfl
  | rational y => cases h

/-- Whole numbers are found only where there is nothing else. -/
theorem eq_map_of_expectIntegers {ns : List (Numeral B.Obj)} {xs : List (B.Obj .int)}
    (h : expectIntegers ns = .ok xs) : ns = xs.map .integer := by
  induction ns generalizing xs with
  | nil =>
    cases h
    rfl
  | cons n ns ih =>
    unfold expectIntegers at h
    cases n with
    | rational x => cases h
    | integer x =>
      cases hns : expectIntegers ns with
      | error err =>
        rw [hns] at h
        cases h
      | ok ys =>
        rw [hns] at h
        cases h
        rw [List.map_cons, ih hns]

/-- There is one error for an operand that is no whole number. -/
theorem eq_of_expectInteger {n : Numeral B.Obj} {err : EncodeError}
    (h : expectInteger n = .error err) : err = .incompatibleOperand .int .real := by
  cases n with
  | integer x => cases h
  | rational x =>
    cases h
    rfl

theorem eq_of_expectIntegers {ns : List (Numeral B.Obj)} {err : EncodeError}
    (h : expectIntegers ns = .error err) : err = .incompatibleOperand .int .real := by
  induction ns with
  | nil => cases h
  | cons n ns ih =>
    unfold expectIntegers at h
    cases hn : expectInteger n with
    | error err' =>
      rw [hn] at h
      cases h
      exact eq_of_expectInteger hn
    | ok x =>
      rw [hn] at h
      cases hns : expectIntegers ns with
      | error err' =>
        rw [hns] at h ih
        cases h
        exact ih rfl
      | ok xs =>
        rw [hns] at h
        cases h

/-! ## Terms -/

/-- A constant as a numeral. -/
def encodeConstant : Constant → Action (Encoder B) (Numeral B.Obj)
  | .integer n => .integer <$> core (.intConstant n)
  | .double x => do
    requireRationals
    match x.toRat? with
    | some q => .rational <$> rational (.constant q)
    | none => throw (.nonFiniteConstant x)

/-- A function at a result type applied to numerals. -/
def applyFunction (f : FunctionKind) (args : List (Numeral B.Obj)) :
    ValueType → Action (Encoder B) (Numeral B.Obj)
  | .integer => do
    let xs ← Action.ofExcept (expectIntegers args)
    match f with
    | .add => .integer <$> core (.intAdd xs)
    | .multiply => .integer <$> core (.intMultiply xs)
    | .divide => throw (.unsupportedFunction .divide .integer)
  | .double => do
    requireRationals
    match f with
    | .add => .rational <$> rational (.add args)
    | .multiply => .rational <$> rational (.multiply args)
    | .divide => throw (.unsupportedFunction .divide .double)
  | .bool => throw (.unsupportedType .bool)

mutual

/-- A term as a numeral. -/
def encodeTerm : Term → Action (Encoder B) (Numeral B.Obj)
  | .constant c => encodeConstant c
  | .var v => do resolveNumeral (← get).options.createVariables v
  | .app f args type => do
    let operands ← encodeTerms args
    applyFunction f operands type

/-- Terms as numerals, from left to right. -/
def encodeTerms : List Term → Action (Encoder B) (List (Numeral B.Obj))
  | [] => pure []
  | t :: ts => do
    let n ← encodeTerm t
    let ns ← encodeTerms ts
    pure (n :: ns)

end

end SmtEncoding.Encoder
