import SmtEncoding.Toml.Document
import SmtEncoding.Decimal.Layout
import SmtEncoding.Text.Quoted

/-!
# Documents with one flag

A small document that may set one truth value.  The whole document has to be well formed before its
keys are looked at, and then the first key that is not the expected one, or has no truth value,
decides the error.
-/

namespace SmtEncoding.Toml

/-- Why a document does not give a flag. -/
inductive FlagError where
  /-- The text is no document. -/
  | malformed
  /-- There is a key that is not the flag. -/
  | unknownField (found expected : String)
  /-- The value of the flag is not a truth value. -/
  | invalidType (found : String)
deriving DecidableEq, Repr

/-- The text of an error. -/
def FlagError.message : FlagError → String
  | malformed => "malformed document"
  | unknownField found expected =>
    "unknown field `" ++ found ++ "`, expected `" ++ expected ++ "`"
  | invalidType found => "invalid type: " ++ found ++ ", expected a boolean"

namespace Value

/-- Doubles in messages about documents are always positional, and whole ones end in `.0`. -/
def layout : Layout := ⟨none, true⟩

/-- What an error says about a value that has the wrong type. -/
def describe : Value → String
  | string text => "string " ++ Text.quote text
  | integer n => "integer `" ++ toString n ++ "`"
  | float x => "floating point `" ++ x.text layout ++ "`"
  | boolean b => "boolean `" ++ toString b ++ "`"
  | array _ | tables _ => "sequence"
  | table _ _ | dateTime => "map"

end Value

/-- The value of the flag in a table, or `value` if it is not set. -/
def flagOf (field : String) (value : Bool) : Entries → Except FlagError Bool
  | [] => .ok value
  | (key, v) :: rest =>
    if key = field then
      match v with
      | .boolean b => flagOf field b rest
      | v => .error (.invalidType v.describe)
    else .error (.unknownField key field)

/-- Reads a flag from a document. -/
def readFlag (field : String) (default : Bool) (source : String) : Except FlagError Bool :=
  match Entries.ofText? source with
  | none => .error .malformed
  | some entries => flagOf field default entries

/-- The document that sets a flag. -/
def writeFlag (field : String) (value : Bool) : String := field ++ " = " ++ toString value ++ "\n"

/-! ## Tests -/

section Tests

/-- The flag of a document of the tests, and `none` if there is an error. -/
def testFlag? (source : String) : Option Bool := (readFlag "f" true source).toOption

/-- The message of the error of a document of the tests. -/
def testError (source : String) : String :=
  match readFlag "f" true source with
  | .ok _ => ""
  | .error e => e.message

example : testFlag? "" = some true := by decide +kernel
example : testFlag? "  f = false # off\r\n" = some false := by decide +kernel
example : testError "f = true\nf = true" = FlagError.malformed.message := by decide +kernel
example : testError "f = 1\n[" = FlagError.malformed.message := by decide +kernel
example : testError "f.g = true" = "invalid type: map, expected a boolean" := by decide +kernel
example : testError "f = \"a\\u00e9\"" = "invalid type: string \"aé\", expected a boolean" := by
  decide +kernel
/-- In braces a dotted key may add to a table in braces, on a later line it may not. -/
example : testError "f = \x7ba = \x7b\x7d, a.b = 1\x7d" =
    "invalid type: map, expected a boolean" := by decide +kernel
example : testError "f = \x7ba = \x7b\x7d\x7d\nf.b = 1" = FlagError.malformed.message := by
  decide +kernel
/-- A table that a header below it implied comes behind the tables that were opened before its own
header. -/
example : (Entries.ofText? "[a.b]\n[c]\n[a]").map (List.map Prod.fst) = some ["c", "a"] := by
  decide +kernel

end Tests

end SmtEncoding.Toml
