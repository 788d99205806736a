import SmtEncoding.SmtLib.Declarations

/-!
# Scripts

A script declares every constant, asserts the given terms and asks for satisfiability, one command
a line.
-/

namespace SmtEncoding.SmtLib

/-- The command that declares a constant. -/
def declareCommand (d : Declaration) : SExpr :=
  .apply "declare-const" [.atom d.symbol, .atom d.sort.name]

/-- The command that asserts a term. -/
def assertCommand (x : SExpr) : SExpr := .apply "assert" [x]

/-- The command that asks for satisfiability. -/
def checkCommand : SExpr := .apply "check-sat" []

/-- The commands of a script. -/
def commands (s : State) (assertions : List SExpr) : List SExpr :=
  s.declarations.map declareCommand ++ assertions.map assertCommand ++ [checkCommand]

/-- The text of a script. -/
def script (s : State) (assertions : List SExpr) : String :=
  String.join ((commands s assertions).map fun c => c.text ++ "\n")

/-! ## Tests -/

section Tests

example : script (constant "p q" .bool .empty).state [.apply "not" [.atom "|p q|"]] =
    "(declare-const |p q| Bool)\n(assert (not |p q|))\n(check-sat)\n" := by decide +kernel

end Tests

end SmtEncoding.SmtLib
