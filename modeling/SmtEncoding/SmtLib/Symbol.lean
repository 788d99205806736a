import SmtEncoding.Solver.Sort

/-!
# SMT-LIB symbols

A name that is a simple symbol stands for itself.  Any other name is written between bars, with
each bar and each backslash in it replaced by an underscore.  To a solver a symbol in bars and the
same symbol without them are one, so symbols are told apart by their *bodies*, without the bars.

`freeSymbol` chooses a symbol for a name and a sort.  The candidates are the name, the name with
its sort, and then the name with its sort and a number.  The first one whose body is not taken
wins.  Candidates have different bodies, so as many steps as there are taken bodies suffice.
-/

namespace SmtEncoding.SmtLib

/-! ## Writing a name -/

/-- The words of SMT-LIB that are not free, and the predefined symbols that look like names. -/
def reserved : List String :=
  ["!", "_", "as", "assert", "check-sat", "declare-const", "declare-fun", "define-fun", "exists",
    "forall", "let", "match", "par", "true", "false", "and", "or", "not", "=>", "ite", "distinct",
    "BINARY", "DECIMAL", "HEXADECIMAL", "NUMERAL", "STRING"]

/-- The signs that a simple symbol may have. -/
def symbolSigns : List Char :=
  ['~', '!', '@', '$', '%', '^', '&', '*', '_', '-', '+', '=', '<', '>', '.', '?', '/']

/-- Whether a simple symbol may have a character. -/
def isSymbolChar (c : Char) : Bool := c.isAlphanum || symbolSigns.contains c

/-- Whether a text has the characters of a simple symbol: some, all allowed, no digit first. -/
def hasSymbolShape : List Char → Bool
  | [] => false
  | c :: cs => !c.isDigit && isSymbolChar c && cs.all isSymbolChar

/-- Whether a name can stand for itself. -/
def isSimpleSymbol (name : String) : Bool :=
  hasSymbolShape name.toList && !reserved.contains name

/-- A character between bars. -/
def quotedChar (c : Char) : Char := if c = '|' ∨ c = '\\' then '_' else c

/-- A name as a symbol. -/
def escape (name : String) : String :=
  if isSimpleSymbol name then name
  else String.ofList ('|' :: (name.toList.map quotedChar ++ ['|']))

/-! ## Reading a symbol -/

/-- The characters of a symbol without the bars around them. -/
def bodyChars : List Char → List Char
  | '|' :: cs => if cs.getLast? = some '|' then cs.dropLast else '|' :: cs
  | cs => cs

/-- A symbol as the solver sees it. -/
def body (symbol : String) : String := String.ofList (bodyChars symbol.toList)

/-! ## Choosing a symbol -/

/-- The names that may stand for a name of a sort, best first. -/
def candidate (name : String) (sort : SolverSort) : Nat → String
  | 0 => name
  | 1 => name ++ "@" ++ sort.name
  | n + 2 => name ++ "@" ++ sort.name ++ toString (n + 1)

/-- The first free candidate from the `i`-th on, or the one after `steps` taken ones. -/
def firstFree (taken : List String) (name : String) (sort : SolverSort) (i : Nat) : Nat → String
  | 0 => escape (candidate name sort i)
  | steps + 1 =>
    let symbol := escape (candidate name sort i)
    if taken.contains (body symbol) then firstFree taken name sort (i + 1) steps else symbol

/-- The symbol for a name of a sort, given the bodies that are taken. -/
def freeSymbol (taken : List String) (name : String) (sort : SolverSort) : String :=
  firstFree taken name sort 0 taken.length

/-! ## Tests -/

section Tests

example : escape "x!1" = "x!1" := by decide
example : escape "" = "||" := by decide
example : escape "1x" = "|1x|" := by decide
example : escape "and" = "|and|" := by decide
example : escape "a b|c" = "|a b_c|" := by decide
example : body "|a b|" = "a b" := by decide
example : body "|" = "|" := by decide
/-- A name that looks like a candidate of another one takes its place. -/
example : freeSymbol ["x", "x@Int"] "x" .int = "x@Int1" := by decide
example : freeSymbol ["a_b"] "a|b" .bool = "|a_b@Bool|" := by decide

end Tests

end SmtEncoding.SmtLib
