import SmtEncoding.Formula.Subterms
import SmtEncoding.Solver.Error

/-!
# Capabilities

What a backend can express.  Truth values and whole numbers are always there, rationals are an
option.  `checkTerm` looks at every subterm and needs rationals as soon as one of them is a double.
-/

namespace SmtEncoding

/-- The features of a backend. -/
structure Capabilities where
  /-- Rational arithmetic. -/
  rationals : Bool := true
deriving DecidableEq, Repr

namespace Capabilities

/-- Whether values of a type can be built. -/
def supports (c : Capabilities) : ValueType → Bool
  | .bool => true
  | .integer => true
  | .double => c.rationals

/-- Fails unless values of the type can be built. -/
def require (c : Capabilities) (type : ValueType) : Except EncodeError Unit :=
  if c.supports type then .ok () else .error (.backendUnsupportedType type)

/-- Fails unless there are rationals. -/
def requireRationals (c : Capabilities) : Except EncodeError Unit := c.require .double

/-- Checks terms one after another. -/
def checkAll (c : Capabilities) : List Term → Except EncodeError Unit
  | [] => .ok ()
  | t :: ts => do
    if t.type = .double then c.requireRationals
    c.checkAll ts

/-- Checks a term and all its subterms, in preorder. -/
def checkTerm (c : Capabilities) (t : Term) : Except EncodeError Unit :=
  c.checkAll t.subterms

/-- There is one error for want of rationals. -/
theorem eq_of_requireRationals {c : Capabilities} {err : EncodeError}
    (h : c.requireRationals = .error err) : err = .backendUnsupportedType .double := by
  unfold requireRationals require at h
  split at h
  · cases h
  · cases h
    rfl

theorem requireRationals_eq_ok_iff {c : Capabilities} :
    c.requireRationals = .ok () ↔ c.rationals = true := by
  unfold requireRationals require supports
  cases c.rationals with
  | true => exact iff_of_true rfl rfl
  | false => exact iff_of_false nofun nofun

/-- The check of terms fails for want of rationals only. -/
theorem eq_of_checkAll {c : Capabilities} {ts : List Term} {err : EncodeError}
    (h : c.checkAll ts = .error err) : err = .backendUnsupportedType .double := by
  induction ts with
  | nil => cases h
  | cons t ts ih =>
    rw [checkAll] at h
    split at h
    · cases hr : c.requireRationals with
      | ok _ =>
        rw [hr] at h
        exact ih h
      | error err' =>
        rw [hr] at h
        cases h
        exact eq_of_requireRationals hr
    · exact ih h

/-- The text of capabilities in the log. -/
def text (c : Capabilities) : String :=
  "Capabilities \x7b rationals: " ++ toString c.rationals ++ " \x7d"

end Capabilities

end SmtEncoding
