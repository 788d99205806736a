import SmtEncoding.Solver.Sort

/-!
# Objects and numerals

A backend has a type of objects for each sort, so a family `O : SolverSort → Type`.  A `Numeral`
is an object of one of the two numeric sorts and an `Object` is one of any sort, each kept together
with its sort.
-/

namespace SmtEncoding

/-! ## Numerals -/

/-- A whole number or a rational of a backend. -/
inductive Numeral (O : SolverSort → Type) where
  /-- An object of sort `Int`. -/
  | integer (value : O .int)
  /-- An object of sort `Real`. -/
  | rational (value : O .real)

namespace Numeral

variable {O : SolverSort → Type}

/-- The sort of a numeral. -/
def sort : Numeral O → SolverSort
  | integer _ => .int
  | rational _ => .real

/-- Whether a numeral is of sort `Real`. -/
def isRational : Numeral O → Bool
  | integer _ => false
  | rational _ => true

/-- A numeral of the sort of a type is a rational if the type is that of doubles. -/
theorem isRational_iff {n : Numeral O} {type : ValueType} (h : n.sort = type.sort) :
    n.isRational = true ↔ type = .double := by
  cases n with
  | integer x =>
    cases type with
    | bool => cases h
    | integer => exact iff_of_false nofun nofun
    | double => cases h
  | rational x =>
    cases type with
    | bool => cases h
    | integer => cases h
    | double => exact iff_of_true rfl rfl

end Numeral

/-! ## Objects -/

/-- An object of a backend together with its sort. -/
structure Object (O : SolverSort → Type) where
  sort : SolverSort
  value : O sort

namespace Object

variable {O : SolverSort → Type}

/-- The object, if it has the sort asked for. -/
def as? : Object O → (sort : SolverSort) → Option (O sort)
  | ⟨.bool, x⟩, .bool => some x
  | ⟨.int, x⟩, .int => some x
  | ⟨.real, x⟩, .real => some x
  | _, _ => none

theorem as?_eq_some_iff {o : Object O} {sort : SolverSort} {x : O sort} :
    o.as? sort = some x ↔ o = ⟨sort, x⟩ := by
  obtain ⟨s, y⟩ := o
  cases s <;> cases sort <;> simp [as?]

theorem as?_eq_none_iff {o : Object O} {sort : SolverSort} :
    o.as? sort = none ↔ o.sort ≠ sort := by
  obtain ⟨s, y⟩ := o
  cases s <;> cases sort <;> simp [as?]

end Object

/-- A numeral as an object. -/
def Numeral.toObject {O : SolverSort → Type} : Numeral O → Object O
  | integer x => ⟨.int, x⟩
  | rational x => ⟨.real, x⟩

/-- An object of a numeric sort as a numeral. -/
def Object.toNumeral? {O : SolverSort → Type} : Object O → Option (Numeral O)
  | ⟨.bool, _⟩ => none
  | ⟨.int, x⟩ => some (.integer x)
  | ⟨.real, x⟩ => some (.rational x)

/-! ## Descriptions -/

/-- The description of an object, with the class of its sort around it. -/
def Object.describe {O : SolverSort → Type} (inner : {s : SolverSort} → O s → String) :
    Object O → String
  | ⟨.bool, x⟩ => "Bool(" ++ inner x ++ ")"
  | ⟨.int, x⟩ => "Integer(" ++ inner x ++ ")"
  | ⟨.real, x⟩ => "Rational(" ++ inner x ++ ")"

/-- The description of a numeral, with its class around it. -/
def Numeral.describe {O : SolverSort → Type} (inner : {s : SolverSort} → O s → String)
    (n : Numeral O) : String :=
  n.toObject.describe inner

end SmtEncoding
