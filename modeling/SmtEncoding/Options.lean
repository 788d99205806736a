/-!
# Options

The choices of a user.  By default a variable gets an object the first time it is met.  Under the
strict options every variable has to be declared before it is used.
-/

namespace SmtEncoding

/-- The options of an encoder. -/
structure Options where
  /-- Whether a variable that is not registered is created where it is met. -/
  createVariables : Bool := true
deriving DecidableEq, Repr

/-- The options under which no variable is created where it is met. -/
def Options.strict : Options := ⟨false⟩

end SmtEncoding
