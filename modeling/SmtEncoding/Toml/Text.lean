import SmtEncoding.Toml.Line

/-!
# TOML strings and keys

A basic string stands between double quotes and has escapes, a literal string stands between single
quotes and has none.  Both have a form between tripled quotes that may span lines: a line end right
after the opening quotes is dropped, and one or two quotes may stand right before the closing ones.
In the basic form a backslash at the end of a line also removes the space that follows.

A key is a string on one line or a word of letters, digits, underscores and hyphens.  A dotted key
is a sequence of keys with points between them.
-/

namespace SmtEncoding.Toml

/-! ## Characters -/

/-- A character that stands for itself in a literal string. -/
def isLiteralChar (c : Char) : Bool := isCommentChar c && c != '\''

/-- A character that stands for itself in a basic string. -/
def isBasicChar (c : Char) : Bool := isCommentChar c && c != '"' && c != '\\'

/-- The value of a hexadecimal digit. -/
def hexDigit? (c : Char) : Option Nat :=
  if c.isDigit then some (c.toNat - '0'.toNat)
  else if 'a' ≤ c && c ≤ 'f' then some (c.toNat - 'a'.toNat + 10)
  else if 'A' ≤ c && c ≤ 'F' then some (c.toNat - 'A'.toNat + 10)
  else none

/-- The character whose code point is given by hexadecimal digits. -/
def codePoint? (digits : List Char) : Option Char := do
  let values ← digits.mapM hexDigit?
  let n := values.foldl (fun n d => 16 * n + d) 0
  if n.isValidChar then some (Char.ofNat n) else none

/-- The character of an escape, read behind the backslash. -/
def escape? : Reader Char
  | 'b' :: r => some ('\x08', r)
  | 't' :: r => some ('\t', r)
  | 'n' :: r => some ('\n', r)
  | 'f' :: r => some ('\x0c', r)
  | 'r' :: r => some ('\r', r)
  | '"' :: r => some ('"', r)
  | '\\' :: r => some ('\\', r)
  | 'u' :: a :: b :: c :: d :: r => (codePoint? [a, b, c, d]).map (·, r)
  | 'U' :: a :: b :: c :: d :: e :: f :: g :: h :: r =>
    (codePoint? [a, b, c, d, e, f, g, h]).map (·, r)
  | _ => none

theorem length_escape?_lt {s r : List Char} {c : Char} (h : escape? s = some (c, r)) :
    r.length < s.length := by
  unfold escape? at h
  split at h
  case h_8 | h_9 =>
    obtain ⟨_, _, h⟩ := Option.map_eq_some_iff.mp h
    cases h
    simp only [List.length_cons]
    omega
  all_goals cases h <;> simp only [List.length_cons, Nat.lt_add_one]

/-- Puts a character in front of what was read. -/
def consRead (c : Char) : Option (List Char × List Char) → Option (List Char × List Char) :=
  Option.map fun read => (c :: read.1, read.2)

/-! ## Strings on one line -/

/-- A basic string, read behind its opening quote. -/
def basicString? : Reader (List Char)
  | [] => none
  | '"' :: r => some ([], r)
  | '\\' :: r =>
    match h : escape? r with
    | none => none
    | some (c, rest) =>
      have : rest.length < r.length := length_escape?_lt h
      consRead c (basicString? rest)
  | c :: r => if isBasicChar c then consRead c (basicString? r) else none
termination_by s => s.length

/-- A literal string, read behind its opening quote. -/
def literalString? : Reader (List Char)
  | [] => none
  | '\'' :: r => some ([], r)
  | c :: r => if isLiteralChar c then consRead c (literalString? r) else none

/-! ## Strings over several lines -/

/-- The text behind the line end that may follow the opening quotes. -/
def skipFirstNewline (s : List Char) : List Char := (newline? s).getD s

/-- A literal string over several lines, read behind its opening quotes. -/
def multilineLiteral? : Reader (List Char)
  | [] => none
  | '\'' :: '\'' :: '\'' :: '\'' :: '\'' :: r => some (['\'', '\''], r)
  | '\'' :: '\'' :: '\'' :: '\'' :: r => some (['\''], r)
  | '\'' :: '\'' :: '\'' :: r => some ([], r)
  | '\r' :: '\n' :: r => consRead '\n' (multilineLiteral? r)
  | c :: r =>
    if isLiteralChar c || c == '\'' || c == '\n' then consRead c (multilineLiteral? r) else none

/-- The text behind a line end that a backslash removes, with the space around it. -/
def joinedLine? (s : List Char) : Option (List Char) := (newline? (skipBlanks s)).map skipSpace

theorem length_joinedLine?_lt {s r : List Char} (h : joinedLine? s = some r) :
    r.length < s.length := by
  obtain ⟨u, hu, rfl⟩ := Option.map_eq_some_iff.mp h
  have h1 := length_newline?_lt hu
  have h2 := length_skipSpace_le u
  have h3 : (skipBlanks s).length ≤ s.length := (List.dropWhile_sublist isBlank).length_le
  omega

/-- A basic string over several lines, read behind its opening quotes. -/
def multilineBasic? : Reader (List Char)
  | [] => none
  | '"' :: '"' :: '"' :: '"' :: '"' :: r => some (['"', '"'], r)
  | '"' :: '"' :: '"' :: '"' :: r => some (['"'], r)
  | '"' :: '"' :: '"' :: r => some ([], r)
  | '\r' :: '\n' :: r => consRead '\n' (multilineBasic? r)
  | '\\' :: r =>
    match h : escape? r with
    | some (c, rest) =>
      have : rest.length < r.length := length_escape?_lt h
      consRead c (multilineBasic? rest)
    | none =>
      match h : joinedLine? r with
      | some rest =>
        have : rest.length < r.length := length_joinedLine?_lt h
        multilineBasic? rest
      | none => none
  | c :: r =>
    if isBasicChar c || c == '"' || c == '\n' then consRead c (multilineBasic? r) else none
termination_by s => s.length

/-! ## Any string -/

/-- Makes a text of what was read. -/
def asString : Option (List Char × List Char) → Option (String × List Char) :=
  Option.map fun read => (String.ofList read.1, read.2)

/-- A string of any form. -/
def string? : Reader String
  | '"' :: '"' :: '"' :: r => asString (multilineBasic? (skipFirstNewline r))
  | '"' :: r => asString (basicString? r)
  | '\'' :: '\'' :: '\'' :: r => asString (multilineLiteral? (skipFirstNewline r))
  | '\'' :: r => asString (literalString? r)
  | _ => none

/-! ## Keys -/

/-- A character of a key without quotes. -/
def isKeyChar (c : Char) : Bool := c.isAlphanum || c == '_' || c == '-'

/-- A key without points. -/
def simpleKey? : Reader String
  | '"' :: r => asString (basicString? r)
  | '\'' :: r => asString (literalString? r)
  | s =>
    match s.takeWhile isKeyChar with
    | [] => none
    | word => some (String.ofList word, s.dropWhile isKeyChar)

/-- The greatest number of parts of a dotted key. -/
def maxKeyParts : Nat := 127

/-- A dotted key of at most `parts` parts, with the blanks around each part.  The parts before the
last and the last are given apart. -/
def dottedKey? : Nat → Reader (List String × String)
  | 0, _ => none
  | parts + 1, s => do
    let (key, r) ← simpleKey? (skipBlanks s)
    match skipBlanks r with
    | '.' :: r => do
      let ((path, last), r) ← dottedKey? parts r
      some ((key :: path, last), r)
    | r => some (([], key), r)

/-- A key, dotted or not. -/
def key? : Reader (List String × String) := dottedKey? maxKeyParts

end SmtEncoding.Toml
