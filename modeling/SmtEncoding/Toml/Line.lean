/-!
# Blanks, comments and line ends

A reader takes a list of characters and answers with what it read and the characters behind it, or
with `none`.  Blanks are spaces and tabs.  A line ends with a line feed, which a carriage return may
precede.  A comment runs to the end of its line and holds no control character but the tab.
-/

namespace SmtEncoding.Toml

/-- A reader of `α`. -/
abbrev Reader (α : Type) : Type := List Char → Option (α × List Char)

/-- A space or a tab. -/
def isBlank (c : Char) : Bool := c == ' ' || c == '\t'

/-- A character that may stand in a comment. -/
def isCommentChar (c : Char) : Bool := c == '\t' || (0x20 ≤ c.toNat && c.toNat ≠ 0x7f)

/-- The text behind blanks. -/
def skipBlanks (s : List Char) : List Char := s.dropWhile isBlank

/-- The text behind a line end. -/
def newline? : List Char → Option (List Char)
  | '\n' :: r => some r
  | '\r' :: '\n' :: r => some r
  | _ => none

/-- The text behind a comment, if there is one. -/
def skipComment : List Char → List Char
  | '#' :: r => r.dropWhile isCommentChar
  | s => s

/-- The text behind the end of a line, with blanks and a comment before it.  The end of the document
is the end of a line. -/
def endOfLine? (s : List Char) : Option (List Char) :=
  match skipComment (skipBlanks s) with
  | [] => some []
  | r => newline? r

/-- The text behind blanks and line ends. -/
def skipSpace : List Char → List Char
  | '\r' :: '\n' :: r => skipSpace r
  | c :: r => if isBlank c || c == '\n' then skipSpace r else c :: r
  | [] => []

theorem length_skipSpace_le (s : List Char) : (skipSpace s).length ≤ s.length := by
  fun_induction skipSpace s with
  | case1 r ih => simp only [List.length_cons]; omega
  | case2 c r _ _ ih => simp only [List.length_cons]; omega
  | case3 => exact Nat.le_refl _
  | case4 => exact Nat.le_refl _

theorem length_newline?_lt {s r : List Char} (h : newline? s = some r) : r.length < s.length := by
  unfold newline? at h
  split at h <;> cases h <;> simp only [List.length_cons] <;> omega

/-- The text behind blanks, line ends and comments, which takes `steps` comments at most. -/
def skipCommentsUpTo : Nat → List Char → List Char
  | 0, s => s
  | steps + 1, s =>
    match skipSpace s with
    | '#' :: r => skipCommentsUpTo steps (r.dropWhile isCommentChar)
    | r => r

/-- The text behind blanks, line ends and comments. -/
def skipComments (s : List Char) : List Char := skipCommentsUpTo (s.length + 1) s

end SmtEncoding.Toml
