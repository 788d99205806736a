import SmtEncoding.Toml.DateTime

/-!
# TOML documents

A document is a sequence of lines: empty ones, comments, keys with values, and the headers of
tables.  A key belongs to the table of the last header before it.  Arrays and inline tables are
nested at most `maxDepth` deep.  `Entries.ofText?` reads a document, or answers with `none` if it
is malformed.
-/

namespace SmtEncoding.Toml

/-! ## Values -/

/-- Items with commas between them up to a closing bracket, read with at most `steps` items.  A
comma may stand behind the last one. -/
def items? (item : Reader Value) : Nat → Reader (List Value)
  | 0, _ => none
  | steps + 1, s =>
    match skipComments s with
    | ']' :: r => some ([], r)
    | s => do
      let (v, r) ← item s
      match skipComments r with
      | ',' :: r => do
        let (vs, r) ← items? item steps r
        some (v :: vs, r)
      | ']' :: r => some ([v], r)
      | _ => none

/-- A key, an equals sign and a value. -/
def keyValue? (value : Reader Value) : Reader ((List String × String) × Value) := fun s => do
  let (key, r) ← key? s
  let r ← mark? '=' r
  let (v, r) ← value (skipBlanks r)
  some ((key, v), r)

/-- Keys and values with commas between them up to a closing brace, entered into a table, read with
at most `steps` keys.  There has to be at least one. -/
def pairs? (value : Reader Value) : Nat → Entries → Reader Entries
  | 0, _, _ => none
  | steps + 1, t, s => do
    let (((path, key), v), r) ← keyValue? value s
    let t ← t.putInline key v path
    match skipBlanks r with
    | ',' :: r => pairs? value steps t r
    | '}' :: r => some (t, r)
    | _ => none

/-- An inline table, read behind its opening brace. -/
def inlineTable? (value : Reader Value) : Reader Entries := fun s =>
  match skipBlanks s with
  | '}' :: r => some ([], r)
  | _ => pairs? value (s.length + 1) [] s

/-- A value without parts. -/
def scalar? : Reader Value
  | 't' :: 'r' :: 'u' :: 'e' :: r => some (.boolean true, r)
  | 'f' :: 'a' :: 'l' :: 's' :: 'e' :: r => some (.boolean false, r)
  | '"' :: r => (string? ('"' :: r)).map fun read => (.string read.1, read.2)
  | '\'' :: r => (string? ('\'' :: r)).map fun read => (.string read.1, read.2)
  | s => dateTime? s <|> float? s <|> integer? s

/-- A value nested at most `depth` deep. -/
def value? : Nat → Reader Value
  | 0, s => scalar? s
  | depth + 1, '[' :: r =>
    (items? (value? depth) (r.length + 1) r).map fun read => (.array read.1, read.2)
  | depth + 1, '{' :: r =>
    (inlineTable? (value? depth) r).map fun read => (.table .inline read.1, read.2)
  | _ + 1, s => scalar? s

/-- The greatest depth of arrays and inline tables. -/
def maxDepth : Nat := 127

/-! ## Lines -/

/-- A document that has been read up to some line. -/
structure Document where
  /-- The entries read so far. -/
  entries : Entries
  /-- The path of the table that keys belong to. -/
  current : List String

namespace Document

/-- The document before its first line. -/
def empty : Document := ⟨[], []⟩

/-- The document with one more key in the current table. -/
def put (d : Document) (path : List String) (key : String) (v : Value) : Option Document := do
  let entries ← d.entries.descend false (Entries.put path key v) d.current .header
  some { d with entries := entries }

/-- The document behind a header. -/
def openHeader (d : Document) (repeated : Bool) (path : List String) (key : String) :
    Option Document := do
  let entries ← if repeated then d.entries.openElement path key else d.entries.openTable path key
  some ⟨entries, path ++ [key]⟩

/-- One line. -/
def line? (d : Document) : Reader Document
  | '[' :: '[' :: r => do
    let ((path, key), r) ← key? r
    let r ← mark? ']' r
    let r ← mark? ']' r
    some (← d.openHeader true path key, ← endOfLine? r)
  | '[' :: r => do
    let ((path, key), r) ← key? r
    let r ← mark? ']' r
    some (← d.openHeader false path key, ← endOfLine? r)
  | s =>
    match endOfLine? s with
    | some r => some (d, r)
    | none => do
      let (((path, key), v), r) ← keyValue? (value? maxDepth) s
      some (← d.put path key v, ← endOfLine? r)

/-- All lines of a text, at most `steps` of them. -/
def lines? : Nat → Document → List Char → Option Document
  | 0, _, _ => none
  | steps + 1, d, s =>
    match skipBlanks s with
    | [] => some d
    | s => do
      let (d, r) ← d.line? s
      lines? steps d r

end Document

/-- The entries of a document.  A byte order mark at its start is skipped. -/
def Entries.ofText? (source : String) : Option Entries :=
  let s := match source.toList with
    | '\ufeff' :: r => r
    | s => s
  (Document.lines? (s.length + 1) .empty s).map Document.entries

end SmtEncoding.Toml
